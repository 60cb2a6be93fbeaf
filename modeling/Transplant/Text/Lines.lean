import Transplant.Text.Basic

/-!
# Lines

Files are read with every line end turned into a line feed (`Text.unified`). Lines are counted with
all characters that end one (`Text.lineCount`).
-/

namespace Transplant
namespace Text

/-- The characters with every line end turned into a line feed. -/
def unifiedList : List Char → List Char
  | [] => []
  | '\r' :: '\n' :: rest => '\n' :: unifiedList rest
  | c :: rest => (if c = '\r' then '\n' else c) :: unifiedList rest

/-- The text with every line end, be it a return, a line feed or both, turned into a line feed. -/
def unified (s : String) : String := String.ofList (unifiedList s.toList)

/-- Whether a character ends a line. -/
def endsLine (c : Char) : Bool :=
  let n := c.toNat
  (0x0A ≤ n && n ≤ 0x0D) || (0x1C ≤ n && n ≤ 0x1E) || n == 0x85 || n == 0x2028 || n == 0x2029

/-- The number of lines, where `open` tells whether a line has begun. -/
def lineCountFrom (opened : Bool) : List Char → Nat
  | [] => if opened then 1 else 0
  | '\r' :: '\n' :: rest => 1 + lineCountFrom false rest
  | c :: rest => if endsLine c then 1 + lineCountFrom false rest else lineCountFrom true rest

/-- The number of lines; a line end at the very end begins no new line. -/
def lineCount (s : String) : Nat := lineCountFrom false s.toList

end Text
end Transplant
