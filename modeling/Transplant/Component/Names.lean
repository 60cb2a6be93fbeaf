import Transplant.Component.Descriptor
import Transplant.Path.Pure

/-!
# Names that tell something

The name of a component after its file, and the kind of a prop after its name.
-/

namespace Transplant
namespace Names

/-- Whether a character can stand in a name made from a file name. -/
def isWordChar (c : Char) : Bool := Text.isLetter c || Text.isDigit c

/-- The stretches of letters and digits, where `current` is being read, last first. -/
def pieces (current : List Char) : List Char → List (List Char)
  | [] => if current.isEmpty then [] else [current.reverse]
  | c :: rest =>
    if isWordChar c then pieces (c :: current) rest
    else if current.isEmpty then pieces [] rest
    else current.reverse :: pieces [] rest

/-- The piece with its first letter in upper case. -/
def capitalize : List Char → List Char
  | [] => []
  | c :: rest => c.toUpper :: rest

/-- The words of a file name run together, each capitalized. -/
def pascalCase (stem : String) : String :=
  let name := (pieces [] stem.toList).flatMap capitalize
  if name.isEmpty then "Component" else String.ofList name

/-- The component name for a file: its name up to the first dot, or the name of its directory if
the file is called `index`. -/
def ofPath (source : String) : String :=
  let path := Path.ofString source
  let stem := String.ofList (path.name.toList.takeWhile (· ≠ '.'))
  pascalCase (if stem = "index" && path.parent.name ≠ "" then path.parent.name else stem)

/-- Whether a name is `on` followed by a capital, as handlers are called. -/
def isHandler (name : String) : Bool :=
  match name.toList with
  | 'o' :: 'n' :: c :: _ => Text.isCapital c
  | _ => false

/-- The words that boolean props begin with. -/
def booleanWords : List String :=
  ["is", "has", "should", "can", "show", "hide", "open", "visible", "hidden", "disabled", "enabled",
    "checked", "selected", "active", "loading", "expanded", "collapsed"]

/-- Whether what follows a word ends it: a capital, an underscore, or the end, where a final line
feed does not count. -/
def endsWord : List Char → Bool
  | [] => true
  | ['\n'] => true
  | c :: _ => Text.isCapital c || c == '_'

/-- Whether a name begins with a word for something true or false. -/
def isBoolean (name : String) : Bool :=
  booleanWords.any fun w =>
    Text.startsWith name w && endsWord (name.toList.drop w.toList.length)

/-- The kind of a prop as its name suggests. -/
def kindOf (name : String) : PropKind :=
  if isHandler name then .function
  else if name = "children" then .node
  else if isBoolean name then .boolean
  else .unknown

end Names
end Transplant
