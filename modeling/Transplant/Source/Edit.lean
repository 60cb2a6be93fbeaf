import Transplant.Text.Utf8

/-!
# Edits

An `Edit` replaces the bytes `[start, stop)` of a source; an empty stretch is an insertion. An offset
below zero counts from the end of the source. Edits are applied together, in order of their offsets,
and must not overlap.

* `Edit.overlap?`: the first edit that begins before an earlier one ends
* `Edit.splice`: the edited bytes
-/

namespace Transplant

/-- A replacement of the bytes `[start, stop)`. -/
structure Edit where
  start : Int
  stop : Int
  replacement : String
deriving DecidableEq, Repr

namespace Edit

/-- Order by where edits begin, then by where they end. -/
def notAfter (a b : Edit) : Bool := a.start < b.start || (a.start == b.start && a.stop ≤ b.stop)

/-- The edits in order of their places; of two at one place the first stays first. -/
def inOrder (edits : List Edit) : List Edit := edits.mergeSort notAfter

/-- Where the first of the ordered edits begins that begins before `reached`, the end of the one
before it. -/
def overlapFrom? (reached : Int) : List Edit → Option Int
  | [] => none
  | e :: rest => if e.start < reached then some e.start else overlapFrom? e.stop rest

/-- Where the first overlap of the edits is. The first edit may begin at the last byte, counted from
the end, but not before it. -/
def overlap? (edits : List Edit) : Option Int := overlapFrom? (-1) (inOrder edits)

/-- The place of an offset in a source of a given length. -/
def place (length : Nat) (offset : Int) : Nat :=
  if offset < 0 then (offset + length).toNat else offset.toNat

/-- The bytes between two offsets. -/
def stretch (source : Bytes) (start stop : Int) : Bytes :=
  let first := place source.length start
  (source.drop first).take (place source.length stop - first)

/-- The bytes from `cursor` on with the ordered edits made. -/
def spliceFrom (source : Bytes) (cursor : Int) : List Edit → Bytes
  | [] => source.drop (place source.length cursor)
  | e :: rest =>
    stretch source cursor e.start ++ Utf8.encode e.replacement ++ spliceFrom source e.stop rest

/-- The edited bytes. -/
def splice (source : Bytes) (edits : List Edit) : Bytes := spliceFrom source 0 (inOrder edits)

end Edit
end Transplant
