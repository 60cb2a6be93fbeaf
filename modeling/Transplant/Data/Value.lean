import Transplant.Data.Moment
import Transplant.Number.Binary64
import Transplant.Number.Integer
import Transplant.Text.Quoted
import Transplant.Text.Basic

/-!
# Values of configuration files

A `Value` is anything that a configuration file can hold. Its text is what a message shows of it.

* `Value.asText`: texts and moments as they are, anything else as `Value.shown`
* `Value.shown`: the value as written inside a list, so with quotes around texts
* `Value.isWritable`: whether its whole numbers are short enough to be written out
* `Value.isTruthy`: whether the value counts as a yes
-/

namespace Transplant

/-- A value of a configuration file. -/
inductive Value where
  | none
  | bool (b : Bool)
  | int (n : Int)
  | float (x : Binary64)
  | text (s : String)
  | moment (m : Moment)
  | list (items : List Value)
  | table (entries : List (String × Value))
deriving BEq, Repr, Inhabited

namespace Value

mutual

/-- The value as it is written inside a list. -/
def shown : Value → String
  | .none => "None"
  | .bool b => if b then "True" else "False"
  | .int n => toString n
  | .float x => x.text
  | .text s => Text.quoted s
  | .moment m => m.shown
  | .list items => "[" ++ Text.join ", " (shownItems items) ++ "]"
  | .table entries => "\x7b" ++ Text.join ", " (shownEntries entries) ++ "\x7d"

/-- The values of a list as written inside it. -/
def shownItems : List Value → List String
  | [] => []
  | v :: rest => shown v :: shownItems rest

/-- The entries of a table as written inside it. -/
def shownEntries : List (String × Value) → List String
  | [] => []
  | (key, v) :: rest => (Text.quoted key ++ ": " ++ shown v) :: shownEntries rest

end

/-- The value as a message shows it. -/
def asText : Value → String
  | .text s => s
  | .moment m => m.text
  | v => v.shown

mutual

/-- Whether every whole number in the value has few enough digits to be written out. -/
def isWritable : Value → Bool
  | .int n => n.natAbs < Nat.pow 10 Integer.maxDigits
  | .list items => areWritable items
  | .table entries => hasWritable entries
  | _ => true

/-- Whether the values of a list can be written out. -/
def areWritable : List Value → Bool
  | [] => true
  | v :: rest => isWritable v && areWritable rest

/-- Whether the values of a table can be written out. -/
def hasWritable : List (String × Value) → Bool
  | [] => true
  | (_, v) :: rest => isWritable v && hasWritable rest

end

/-- Whether the value counts as a yes: not empty, not zero, not false. -/
def isTruthy : Value → Bool
  | .none => false
  | .bool b => b
  | .int n => n != 0
  | .float x => !x.isZero
  | .text s => s != ""
  | .moment _ => true
  | .list items => !items.isEmpty
  | .table entries => !entries.isEmpty

/-- The text, if the value is one. -/
def text? : Value → Option String
  | .text s => some s
  | _ => Option.none

/-- The texts, if the value is a list of texts. -/
def texts? : Value → Option (List String)
  | .list items => items.mapM text?
  | _ => Option.none

/-- The value of a key, if the value is a table that has it. -/
def get? (v : Value) (key : String) : Option Value :=
  match v with
  | .table entries => entries.lookup key
  | _ => Option.none

/-- What kind of value it is, as a message names it. -/
def typeName : Value → String
  | .none => "NoneType"
  | .bool _ => "bool"
  | .int _ => "int"
  | .float _ => "float"
  | .text _ => "str"
  | .moment m => m.kindName
  | .list _ => "list"
  | .table _ => "dict"

end Value
end Transplant
