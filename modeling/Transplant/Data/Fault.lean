import Transplant.Number.Integer

/-!
# Texts that hold no data

Why the text of a data file cannot be read. Whole numbers have a limit of their own: they are read
digit by digit, and there may only be so many.

* `DataFault`: what is wrong with a text
* `DataFault.whole`: the number that some digits stand for, within the limit
-/

namespace Transplant

/-- Why a text holds no data. -/
inductive DataFault where
  /-- The text breaks the rules of its format. -/
  | malformed
  /-- A whole number has more digits than can be read. -/
  | tooLong (digits : Nat)
deriving DecidableEq, Repr

namespace DataFault

/-- The wording of a fault. -/
def message : DataFault → String
  | .malformed => "the text breaks the rules of its format"
  | .tooLong digits =>
    s!"Exceeds the limit ({Integer.maxDigits} digits) for integer string conversion: " ++
      s!"value has {digits} digits; use sys.set_int_max_str_digits() to increase the limit"

/-- The wording of the complaint about a whole number with too many digits to be written out. -/
def unwritable : String :=
  s!"Exceeds the limit ({Integer.maxDigits} digits) for integer string conversion; " ++
    "use sys.set_int_max_str_digits() to increase the limit"

/-- What has been read, if there is anything. -/
def need {α : Type} : Option α → Except DataFault α
  | some a => .ok a
  | none => .error .malformed

/-- The number that decimal digits stand for, which must not be too many. -/
def whole (digits : List Char) : Except DataFault Nat :=
  if digits.length ≤ Integer.maxDigits then
    .ok (digits.foldl (fun n c => n * 10 + (c.toNat - 48)) 0)
  else .error (.tooLong digits.length)

end DataFault
end Transplant
