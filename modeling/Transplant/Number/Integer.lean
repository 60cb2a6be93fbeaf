import Transplant.Text.Blank
import Transplant.Text.Decimal

/-!
# Integers as people write them

An integer is a sign, if any, and digits, among which single underscores may stand. Blanks around it
do not count.

* `Integer.ofText?`: reads an integer
-/

namespace Transplant
namespace Integer

/-- How many digits an integer may have. -/
def maxDigits : Nat := 4300

/-- Whether a blank that may stand around an integer: the four control characters that separate
files, groups, records and units may not. -/
def isMargin (c : Char) : Bool := Text.isBlank c && !(0x1C ≤ c.toNat && c.toNat ≤ 0x1F)

/-- A list without blanks at both ends. -/
def trimmed (l : List Char) : List Char :=
  ((l.dropWhile isMargin).reverse.dropWhile isMargin).reverse

/-- The values of digits among which single underscores stand, the first of them a digit. -/
def digits? : List Char → Option (List Nat)
  | [] => none
  | [c] => (Text.digitValue? c).map ([·])
  | c :: '_' :: rest => do return (← Text.digitValue? c) :: (← digits? rest)
  | c :: rest => do return (← Text.digitValue? c) :: (← digits? rest)

/-- The number with given digits. -/
def ofDigits (digits : List Nat) : Nat := digits.foldl (fun n d => 10 * n + d) 0

/-- An integer without a sign. -/
def magnitude? (l : List Char) : Option Nat := do
  let digits ← digits? l
  if digits.length ≤ maxDigits then some (ofDigits digits) else none

/-- Reads an integer. -/
def ofText? (s : String) : Option Int :=
  match trimmed s.toList with
  | '-' :: rest => (magnitude? rest).map fun n => -(n : Int)
  | '+' :: rest => (magnitude? rest).map Int.ofNat
  | l => (magnitude? l).map Int.ofNat

end Integer
end Transplant
