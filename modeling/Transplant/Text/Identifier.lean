import Transplant.Text.Basic

/-!
# Identifiers

Which texts are plain names. A line feed at the very end of a text is not counted against it.
-/

namespace Transplant
namespace Text

/-- Whether a character can begin a name. -/
def startsName (c : Char) : Bool := isLetter c || c == '_' || c == '$'

/-- Whether a character can stand in a name. -/
def inName (c : Char) : Bool := startsName c || isDigit c

/-- Whether a character can stand in the name of an attribute. -/
def inAttribute (c : Char) : Bool := inName c || c == '-'

/-- Whether all characters are allowed, a final line feed aside. -/
def allButNewline (allowed : Char → Bool) : List Char → Bool
  | [] => true
  | ['\n'] => true
  | c :: rest => allowed c && allButNewline allowed rest

/-- Whether a text begins like a name and goes on with allowed characters. -/
def isNameOf (allowed : Char → Bool) (s : String) : Bool :=
  match s.toList with
  | [] => false
  | c :: rest => startsName c && allButNewline allowed rest

/-- Whether a text is an identifier. -/
def isIdentifier (s : String) : Bool := isNameOf inName s

/-- Whether a text can be written as the name of an attribute. -/
def isAttributeName (s : String) : Bool := isNameOf inAttribute s

end Text
end Transplant
