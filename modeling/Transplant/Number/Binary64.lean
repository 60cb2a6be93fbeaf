/-!
# Numbers of 64 bits

A `Binary64` is a number `± mantissa * 2 ^ exponent` with at most 53 bits of mantissa and an
exponent of at least -1074, or an infinity, or no number at all.

* `Binary64.ofDecimal`: the nearest one to a decimal, ties to the even mantissa
* `Binary64.shortest`: the fewest digits that read back as the number, the nearest such
* `Binary64.text`: those digits, positional between 1e-4 and 1e16
-/

namespace Transplant

/-- A floating point number of 64 bits. -/
inductive Binary64 where
  | finite (negative : Bool) (mantissa : Nat) (exponent : Int)
  | infinite (negative : Bool)
  | undefined
deriving DecidableEq, Repr, Inhabited

namespace Binary64

/-- The number of decimal digits. -/
def digitCount (n : Nat) : Nat := (Nat.toDigits 10 n).length

/-- `a / b` rounded to the nearest number, a half to the even one. -/
def roundDiv (a b : Nat) : Nat :=
  let q := a / b
  let r := a % b
  if 2 * r > b || (2 * r == b && q % 2 == 1) then q + 1 else q

/-- The least mantissa of 53 bits. -/
def leastFull : Nat := 0x10000000000000

/-- The fraction `a / b` divided by `base ^ e`, as a fraction. -/
def scale (base a b : Nat) (e : Int) : Nat × Nat :=
  if 0 ≤ e then (a, b * Nat.pow base e.toNat) else (a * Nat.pow base (-e).toNat, b)

/-- The exponent at which the fraction `a / b` has 53 bits, but not less than -1074. -/
def exponentOf (a b : Nat) : Int :=
  let low : Int := (Nat.log2 a : Int) - (Nat.log2 b : Int) - 53
  let (n, d) := scale 2 a b low
  max (if n / d < leastFull * 2 then low else low + 1) (-1074)

/-- The nearest number to the positive fraction `a / b`. -/
def ofFraction (negative : Bool) (a b : Nat) : Binary64 :=
  let e := exponentOf a b
  let (n, d) := scale 2 a b e
  let m := roundDiv n d
  let (m, e) := if m = leastFull * 2 then (leastFull, e + 1) else (m, e)
  if e > 971 then .infinite negative else .finite negative m e

/-- The nearest number to `± digits * 10 ^ e`. -/
def ofDecimal (negative : Bool) (digits : Nat) (e : Int) : Binary64 :=
  if digits = 0 || e + digitCount digits < -400 then .finite negative 0 (-1074)
  else if e > 400 then .infinite negative
  else
    let (a, b) := scale 10 digits 1 (-e)
    ofFraction negative a b

/-- The `p` with `10 ^ p ≤ a / b < 10 ^ (p + 1)`. -/
def decade (a b : Nat) : Int :=
  let p : Int := (digitCount a : Int) - (digitCount b : Int)
  let (n, d) := scale 10 a b p
  if n < d then p - 1 else p

/-- A decimal of `k` digits that rounds to `m * 2 ^ e`, if there is one: the nearer of the two
neighbours of the number. -/
def neighbour? (m : Nat) (e : Int) (k : Nat) : Option (Nat × Int) :=
  -- the number, and the two ends of what rounds to it, all in quarters of a last place
  let (a, b) := scale 2 (4 * m) 4 (-e)
  let below := if m = leastFull && e > -1074 then 1 else 2
  let (low, _) := scale 2 (4 * m - below) 4 (-e)
  let (high, _) := scale 2 (4 * m + 2) 4 (-e)
  let p := decade a b - k + 1
  let inside (c : Nat) : Bool :=
    let (n, d) := scale 10 c 1 (-p)
    if m % 2 = 0 then low * d ≤ n * b && n * b ≤ high * d
    else low * d < n * b && n * b < high * d
  let (n, d) := scale 10 a b p
  let floor := n / d
  let near := roundDiv n d
  let far := if near = floor then floor + 1 else floor
  if inside near then some (near, p) else if inside far then some (far, p) else none

/-- The fewest digits that round to `m * 2 ^ e`, with the place of the last one. -/
def shortest (m : Nat) (e : Int) : Nat × Int :=
  ((List.range 17).findSome? fun k => neighbour? m e (k + 1)).getD (m, 0)

/-- A decimal without zeros at its end. -/
def trimZeros : Nat → Nat → Int → Nat × Int
  | 0, digits, e => (digits, e)
  | fuel + 1, digits, e =>
    if digits ≠ 0 && digits % 10 = 0 then trimZeros fuel (digits / 10) (e + 1) else (digits, e)

/-- The digits of a number without zeros at the end, and the place of the last one. -/
def digits (m : Nat) (e : Int) : Nat × Int :=
  let (d, p) := shortest m e
  trimZeros 17 d p

/-- The text of a decimal: positional if its first digit stands at a place from -4 to 15, and with
an exponent of at least two digits otherwise. -/
def write (d : Nat) (p : Int) : String :=
  let ds := Nat.toDigits 10 d
  let place : Int := p + ds.length - 1
  if -4 ≤ place && place < 16 then
    if 0 ≤ p then String.ofList (ds ++ List.replicate p.toNat '0') ++ ".0"
    else if 0 ≤ place then
      String.ofList (ds.take (place.toNat + 1) ++ '.' :: ds.drop (place.toNat + 1))
    else "0." ++ String.ofList (List.replicate (-place - 1).toNat '0' ++ ds)
  else
    let tail := ds.drop 1
    let mantissa := ds.take 1 ++ (if tail.isEmpty then [] else '.' :: tail)
    let size := Nat.toDigits 10 place.natAbs
    let size := if size.length < 2 then '0' :: size else size
    String.ofList (mantissa ++ 'e' :: (if place < 0 then '-' else '+') :: size)

/-- The text of a number. -/
def text : Binary64 → String
  | .undefined => "nan"
  | .infinite negative => if negative then "-inf" else "inf"
  | .finite negative m e =>
    let size := if m = 0 then "0.0" else
      let (d, p) := digits m e
      write d p
    if negative then "-" ++ size else size

/-- Whether the number is zero. -/
def isZero : Binary64 → Bool
  | .finite _ m _ => m == 0
  | _ => false

end Binary64
end Transplant
