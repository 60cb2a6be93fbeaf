import Transplant.Text.Basic

/-!
# Dates and times

A `Moment` is a day, a time of day, or both, then perhaps with the distance to universal time. It is
written in two ways: as people write it, and as it is built from its numbers.

* `Moment.text`: day and time with their numbers padded
* `Moment.shown`: the moment with its parts in brackets
-/

namespace Transplant

/-- A day. -/
structure Day where
  year : Nat
  month : Nat
  day : Nat
deriving DecidableEq, Repr

/-- A time of day, down to millionths of a second. -/
structure Clock where
  hour : Nat
  minute : Nat
  second : Nat
  micro : Nat
deriving DecidableEq, Repr

/-- A day, a time of day, or both. -/
inductive Moment where
  | day (d : Day)
  | clock (c : Clock)
  /-- The last part is the distance to universal time in minutes, if it is known. -/
  | both (d : Day) (c : Clock) (offset : Option Int)
deriving DecidableEq, Repr

/-- A number with zeros in front up to a width. -/
def Moment.padded (width n : Nat) : String :=
  let digits := Nat.toDigits 10 n
  String.ofList (List.replicate (width - digits.length) '0' ++ digits)

namespace Day

/-- The day as people write it. -/
def text (d : Day) : String :=
  Text.join "-" [Moment.padded 4 d.year, Moment.padded 2 d.month, Moment.padded 2 d.day]

/-- The numbers of a day. -/
def numbers (d : Day) : List Nat := [d.year, d.month, d.day]

end Day

namespace Clock

/-- The time as people write it. Millionths are left out if there are none. -/
def text (c : Clock) : String :=
  Text.join ":" [Moment.padded 2 c.hour, Moment.padded 2 c.minute, Moment.padded 2 c.second] ++
    if c.micro = 0 then "" else "." ++ Moment.padded 6 c.micro

/-- The numbers of a time, without zeros at the end of it beyond the minutes. -/
def numbers (c : Clock) : List Nat :=
  [c.hour, c.minute] ++
    if c.micro ≠ 0 then [c.second, c.micro] else if c.second ≠ 0 then [c.second] else []

end Clock

namespace Moment

/-- A distance to universal time as people write it. -/
def offsetText (minutes : Int) : String :=
  (if minutes < 0 then "-" else "+") ++ padded 2 (minutes.natAbs / 60) ++ ":" ++
    padded 2 (minutes.natAbs % 60)

/-- A distance to universal time, built from whole days and the seconds of a day. -/
def offsetShown (minutes : Int) : String :=
  if minutes = 0 then "datetime.timezone.utc"
  else
    let days := if minutes < 0 then "days=-1, " else ""
    s!"datetime.timezone(datetime.timedelta({days}seconds={(minutes * 60) % 86400}))"

/-- The moment as people write it. -/
def text : Moment → String
  | .day d => d.text
  | .clock c => c.text
  | .both d c offset => d.text ++ " " ++ c.text ++ (offset.map offsetText).getD ""

/-- The name of the kind of moment. -/
def kindName : Moment → String
  | .day _ => "datetime.date"
  | .clock _ => "datetime.time"
  | .both .. => "datetime.datetime"

/-- What a moment is built from. -/
def parts : Moment → List String
  | .day d => d.numbers.map toString
  | .clock c => c.numbers.map toString
  | .both d c offset =>
    (d.numbers ++ c.numbers).map toString ++ (offset.map fun m => "tzinfo=" ++ offsetShown m).toList

/-- The moment as it is built from its parts. -/
def shown (m : Moment) : String := m.kindName ++ "(" ++ Text.join ", " m.parts ++ ")"

end Moment
end Transplant
