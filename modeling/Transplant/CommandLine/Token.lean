import Transplant.CommandLine.Flag
import Transplant.Text.Decimal

/-!
# Tokens of a command line

Each argument is looked at on its own first: it is a plain word, the separator `--`, or a flag. A long
flag may be shortened as far as it stays the only one; a value may be attached to a long flag by `=`
and to a short one also without. After the separator all arguments are plain words.

* `Token.ofArguments`: the tokens of a command line
-/

namespace Transplant
namespace CommandLine

/-- The use of a flag. -/
structure Use where
  flag : Flag
  /-- Whether the flag is spelled with one dash. -/
  short : Bool
  /-- The text attached to the flag. -/
  attached : Option String
deriving DecidableEq, Repr

/-- An argument of a command line by what it is. -/
inductive Token where
  | word (text : String)
  | separator
  | flag (use : Use) (text : String)
  /-- It looks like a flag, but there is none of that name. -/
  | unknown (text : String)
deriving DecidableEq, Repr

/-- A shortened flag that could be several. -/
structure Ambiguous where
  argument : String
  candidates : List String
deriving DecidableEq, Repr

namespace Token

/-- The argument that a token stands for. -/
def text : Token → String
  | .word text => text
  | .separator => "--"
  | .flag _ text => text
  | .unknown text => text

/-- Whether a token is a flag, known or not. -/
def isFlag : Token → Bool
  | .flag .. | .unknown _ => true
  | .word _ | .separator => false

/-- A list without a line break at its end. -/
def withoutLineEnd (l : List Char) : List Char :=
  if l.getLast? = some '\n' then l.dropLast else l

/-- Whether the characters after a dash make a number: digits, or a dot and digits after it. One
line break may follow. -/
def isNumeral (l : List Char) : Bool :=
  let l := withoutLineEnd l
  match l.dropWhile Text.isDecimal with
  | [] => !l.isEmpty
  | '.' :: fraction => !fraction.isEmpty && fraction.all Text.isDecimal
  | _ => false

/-- The argument split at its first equals sign; `none` behind if there is no such sign. -/
def splitValue (argument : String) : String × Option String :=
  match Text.cut? '=' argument with
  | some (name, value) => (name, some value)
  | none => (argument, none)

/-- An argument with a dash in front that is no flag. A negative number and a text with a space are
plain words. -/
def undashed (argument : String) : Token :=
  if isNumeral (argument.toList.drop 1) || argument.toList.contains ' ' then .word argument
  else .unknown argument

/-- An argument with two dashes in front that is no spelling: a flag may be shortened. -/
def ofLong (argument : String) : Except Ambiguous Token :=
  let (name, attached) := splitValue argument
  match Flag.beginning name with
  | [] => .ok (undashed argument)
  | [(_, f)] => .ok (.flag ⟨f, false, attached⟩ argument)
  | several => .error ⟨argument, several.map (·.1)⟩

/-- An argument with one dash in front that is no spelling: a value or more flags may follow the
first letter. -/
def ofShort (argument : String) : Token :=
  match Flag.named? (String.ofList (argument.toList.take 2)) with
  | some f => .flag ⟨f, true, some (Text.drop argument 2)⟩ argument
  | none => undashed argument

/-- Whether a spelling has one dash. -/
def isShort (spelling : String) : Bool := !Text.startsWith spelling "--"

/-- The token of an argument in front of the separator. -/
def ofArgument (argument : String) : Except Ambiguous Token :=
  if !Text.startsWith argument "-" || argument = "-" then .ok (.word argument)
  else match Flag.named? argument with
    | some f => .ok (.flag ⟨f, isShort argument, none⟩ argument)
    | none =>
      let (name, attached) := splitValue argument
      match attached.bind fun _ => Flag.named? name with
      | some f => .ok (.flag ⟨f, isShort name, attached⟩ argument)
      | none => if isShort argument then .ok (ofShort argument) else ofLong argument

/-- The tokens of a command line. -/
def ofArguments : List String → Except Ambiguous (List Token)
  | [] => .ok []
  | argument :: rest =>
    if argument = "--" then .ok (.separator :: rest.map .word)
    else do return (← ofArgument argument) :: (← ofArguments rest)

end Token
end CommandLine
end Transplant
