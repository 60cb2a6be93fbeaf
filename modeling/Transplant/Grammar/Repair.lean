import Transplant.Grammar.Stack

/-!
# Ways around an error

Where a source cannot be read, something is passed over or taken to be missing. Several `Course`s
are followed side by side. A course that is lost looks at one piece after the other: if the piece
would be right behind some part read before, all since then is given up and a new course goes on
from there; and the piece is skipped, in the hope of a better one. Every course has a cost, by what
it has passed over, and courses that cost clearly more than another are abandoned.

* `course?`: the course that is left at the end of a source
-/

namespace Transplant
namespace Grammar

open Utf8 (Glyph)

/-! ## Courses -/

/-- The state of a course that does not know how to go on. -/
structure Stray where
  /-- What it may give up, last first. -/
  parts : List Part
  /-- Where the last piece before the error ends. -/
  origin : Nat
  /-- The line of that place. -/
  originLine : Nat
  /-- Whether a statement may end at that place. -/
  mayEnd : Bool
  /-- The pieces that it has skipped, last first. -/
  skipped : List Piece := []

/-- How a course goes. -/
inductive Pace where
  /-- It reads on, up to an error or to the end. -/
  | reading (halt : Option Nat)
  /-- It has just come to an error. -/
  | halted
  | lost (stray : Stray)

/-- One way to read a source. -/
structure Course where
  /-- The source with what is passed over made blank, and what is missing put in. -/
  source : List Glyph
  /-- How many bytes have been put in. -/
  shift : Nat := 0
  memory : Memory Rule
  cost : Nat := 0
  /-- How much it has read since its last error. -/
  since : Nat := 0
  /-- The line of its first error. -/
  line : Option Nat := none
  /-- Statements that it has given up. -/
  given : List Node := []
  pace : Pace

/-- The cost of every repair. -/
def repairCost : Nat := 500

/-- The cost of a missing piece. -/
def missingCost : Nat := 110

/-- The cost of each tree that is passed over. -/
def treeCost : Nat := 100

/-- The cost of each line that is passed over. -/
def lineCost : Nat := 30

/-- The difference of cost, times what has been read since, that a course is abandoned for. -/
def patience : Nat := 1800

/-- What can be found missing: a name, the end of a statement, a closing bracket. -/
def fillers : List (List Char) := [[' ', 'x'], [closeBraceChar], [';'], [')'], [']'], ['>']]

/-- How many parts can be given up. -/
def maxRetreat : Nat := 16

/-- How many courses are followed. -/
def maxCourses : Nat := 6

/-- The source with blanks between two offsets. -/
def blanked (start stop : Nat) : Nat → List Glyph → List Glyph
  | _, [] => []
  | offset, g :: rest =>
    (if start ≤ offset && offset < stop then { g with char := ' ' } else g) ::
      blanked start stop (offset + g.width) rest

/-- The source with characters put in at an offset. -/
def filled (place : Nat) (chars : List Char) : Nat → List Glyph → List Glyph
  | _, [] => chars.map fun c => { char := c, width := 1 }
  | offset, g :: rest =>
    if place ≤ offset then (chars.map fun c => { char := c, width := 1 }) ++ g :: rest
    else g :: filled place chars (offset + g.width) rest

/-- The earlier of two lines. -/
def earlier (line : Option Nat) (other : Nat) : Nat := (line.map (min other)).getD other

/-- Reading is tried only so often. -/
abbrev Tries := StateM Nat

/-- Reads a source if that may still be tried. -/
def attempt? (lang : Language) (source : List Glyph) : Tries (Option Attempt) := do
  match ← get with
  | 0 => return none
  | n + 1 =>
    set n
    return some (attempt lang source)

namespace Course

/-- Where an attempt to read the source of a course comes to a halt, in bytes of the source as it
was. -/
def haltOf (shift : Nat) (a : Attempt) : Option Nat :=
  if a.tree.isSome then none else some (a.memory.reach.offset - shift)

/-- Whether an attempt gets beyond an offset. -/
def passes (offset : Nat) (a : Attempt) : Bool := a.tree.isSome || offset < a.memory.reach.offset

/-- A course that has got lost. -/
def stray (c : Course) (lang : Language) (offset : Nat) : Stray :=
  let place := offset + c.shift
  let fuel := c.source.length + 1
  let before := ((pieces true fuel (beginning c.source)).takeWhile (·.stop ≤ place)).getLast?
  let origin := (before.map (·.stop)).getD 0
  { parts := partsBefore c.memory c.source place
    origin
    originLine := (before.map (·.lastLine)).getD 1
    mayEnd := endsStatement lang .value fuel (Cursor.walkTo origin fuel (beginning c.source)).rest }

/-- The course that finds a piece missing in front of an offset. -/
def supply? (c : Course) (lang : Language) (s : Stray) (offset : Nat) :
    List (List Char) → Tries (Option Course)
  | [] => return none
  | filler :: rest => do
    let source := filled s.origin filler 0 c.source
    let shift := c.shift + filler.length
    match ← attempt? lang source with
    | none => return none
    | some a =>
      if passes (offset + shift) a then
        return some {
          source, shift
          memory := a.memory
          cost := c.cost + repairCost + missingCost
          since := c.since + 1
          line := some (earlier c.line s.originLine)
          given := c.given
          pace := .reading (haltOf shift a) }
      else c.supply? lang s offset rest

/-- The course that gives up all from a place on, up to what has been skipped. -/
def giveUp (c : Course) (s : Stray) (after start line trees : Nat) (a : Attempt)
    (source : List Glyph) : Course :=
  let stop := (s.skipped.head?.map (·.stop + c.shift)).getD s.origin
  let lastLine := (s.skipped.head?.map (·.lastLine)).getD s.originLine
  { source
    shift := c.shift
    memory := a.memory
    cost := c.cost + repairCost + (stop - start) + lineCost * (lastLine - line) + treeCost * trees
    since := s.skipped.length + 1
    line := some (earlier c.line line)
    given := c.given ++ statementsBetween c.memory (stop + 1) after s.origin
    pace := .reading (haltOf c.shift a) }

/-- The course that goes back to the nearest part behind which the piece at an offset is right.
The parts up to the given number of trees have been found wrong. -/
def retreat? (c : Course) (lang : Language) (s : Stray) (offset : Nat) :
    Nat → Nat → List Part → Tries (Option Course)
  | 0, _, _ => return none
  | _, _, [] => return none
  | n + 1, trees, p :: rest => do
    let stop := (s.skipped.head?.map (·.stop + c.shift)).getD s.origin
    let source := blanked p.start stop 0 c.source
    match ← attempt? lang source with
    | none => return none
    | some a =>
      let trees := trees + p.trees
      if passes (offset + c.shift) a then
        return some (c.giveUp s p.after p.start p.line trees a source)
      else c.retreat? lang s offset n trees rest

/-- The course that goes on where the error was, behind what has been skipped. -/
def resume? (c : Course) (lang : Language) (s : Stray) (offset : Nat) : Tries (Option Course) := do
  match s.skipped.getLast?, s.skipped.head? with
  | some first, some last =>
    let start := if s.mayEnd then first.start + c.shift else s.origin
    let source := blanked start (last.stop + c.shift) 0 c.source
    match ← attempt? lang source with
    | none => return none
    | some a =>
      if passes (offset + c.shift) a then
        return some (c.giveUp s s.origin (first.start + c.shift) first.line s.skipped.length a source)
      else c.retreat? lang s offset maxRetreat s.skipped.length s.parts
  | _, _ => c.retreat? lang s offset maxRetreat 0 s.parts

/-- The cost of a course as it is. -/
def presentCost (c : Course) : Nat :=
  match c.pace with
  | .reading _ => c.cost
  | .halted => c.cost + repairCost + treeCost
  | .lost s =>
    match s.skipped.getLast?, s.skipped.head? with
    | some first, some last =>
      c.cost + repairCost + (last.stop - first.start) + lineCost * (last.lastLine - first.line) +
        treeCost * s.skipped.length
    | _, _ => c.cost + repairCost

/-- Whether a course reads. -/
def isReading (c : Course) : Bool :=
  match c.pace with
  | .reading _ => true
  | _ => false

/-- Whether a course has just come to an error. -/
def isHalted (c : Course) : Bool :=
  match c.pace with
  | .halted => true
  | _ => false

/-- How two courses compare. -/
inductive Verdict where
  | keepFirst
  | firstBefore
  | secondBefore
  | keepSecond

/-- The verdict on two courses of which the first costs less. -/
def clearly (first second : Course) (sure unsure : Verdict) : Verdict :=
  if patience < (second.presentCost - first.presentCost) * (1 + first.since) then sure else unsure

/-- The verdict on two courses. One that reads goes before one that does not, and replaces it if it
costs less. -/
def compare (a b : Course) : Verdict :=
  if a.isReading && !b.isReading then
    if a.presentCost < b.presentCost then .keepFirst else .firstBefore
  else if b.isReading && !a.isReading then
    if b.presentCost < a.presentCost then .keepSecond else .secondBefore
  else if a.presentCost < b.presentCost then clearly a b .keepFirst .firstBefore
  else if b.presentCost < a.presentCost then clearly b a .keepSecond .secondBefore
  else .firstBefore

/-- Whether two courses read on in the same way. -/
def agrees (a b : Course) : Bool :=
  match a.pace, b.pace with
  | .reading x, .reading y => x = y
  | _, _ => false

/-- Courses in order with one more put among them. -/
def insert (c : Course) : List Course → List Course
  | [] => [c]
  | other :: rest =>
    if agrees other c then (if other.cost ≤ c.cost then other else c) :: rest
    else
      match compare other c with
      | .keepFirst => other :: rest
      | .firstBefore => other :: insert c rest
      | .secondBefore => c :: insert other rest
      | .keepSecond => insert c rest

/-- The courses worth following, best first. -/
def sift (courses : List Course) : List Course :=
  (courses.foldl (fun kept c => c.insert kept) []).take maxCourses

/-- A lost course looks at the next piece: it skips it, and perhaps another course goes on from an
earlier part. -/
def look (lang : Language) (c : Course) (s : Stray) (piece : Piece) : Tries (List Course) := do
  let found ← c.resume? lang s piece.start
  return { c with
    pace := .lost { s with skipped := piece :: s.skipped }, since := 2 * (s.skipped.length + 1) } ::
      found.toList

/-- A course that has come to an error at a piece gets lost there. -/
def begin (lang : Language) (c : Course) (piece : Piece) : Tries (List Course) := do
  let s := c.stray lang piece.start
  let supplied ← c.supply? lang s piece.start fillers
  return (← look lang { c with since := 0 } s piece) ++ supplied.toList

/-- What becomes of a course at a piece. -/
def step (lang : Language) (piece : Piece) (c : Course) : Tries (List Course) :=
  match c.pace with
  | .reading halt =>
    if halt.any (· ≤ piece.start) then return [{ c with pace := .halted }]
    else return [{ c with since := c.since + 1 + c.since % 2 }]
  | .halted => return [c]
  | .lost s => look lang c s piece

/-- The first of some courses that have all come to an error sets out again; where another course
goes on, those are abandoned. -/
def restart (lang : Language) (piece : Piece) (courses : List Course) : Tries (List Course) :=
  match courses with
  | [] => return []
  | c :: rest => do
    let others := rest.filter (!·.isHalted)
    if c.isHalted then return (← begin lang c piece) ++ others else return c :: others

/-- All courses at the next piece. -/
def advance (lang : Language) (piece : Piece) (courses : List Course) : Tries (List Course) := do
  let stepped ← courses.mapM (step lang piece)
  restart lang piece (sift stepped.flatten)

/-- The pieces of a source one after the other. -/
def along (lang : Language) : List Piece → List Course → Tries (List Course)
  | [], courses => return courses
  | p :: rest, courses => do along lang rest (sift (← advance lang p courses))

/-! ## The end -/

/-- A course that gives up everything, from the first piece to the last. -/
def surrender (c : Course) (s : Stray) (first last : Piece) : Course :=
  let width := widthOf c.source
  let trees := s.parts.foldl (fun n p => n + p.trees) s.skipped.length
  { c with
    source := []
    line := some first.line
    given := c.given ++ statementsBetween c.memory (width + 1) 0 width
    cost := c.cost + repairCost + (last.stop - first.start) +
      lineCost * (last.lastLine - first.line) + treeCost * trees
    pace := .reading none }

/-- What becomes of a lost course at the end of the source. -/
def atEnd (lang : Language) (first last : Piece) (stop : Nat) (c : Course) (s : Stray) :
    Tries (List Course) := do
  let found ← c.resume? lang s stop
  return found.toList ++ [c.surrender s first last]

/-- What becomes of a course at the end of the source. -/
def finish (lang : Language) (first last : Piece) (stop : Nat) (c : Course) :
    Tries (List Course) :=
  match c.pace with
  | .reading none => return [c]
  | .lost s => atEnd lang first last stop c s
  | _ => do
    let s := c.stray lang stop
    let supplied ← c.supply? lang s stop fillers
    return supplied.toList ++ (← atEnd lang first last stop c s)

/-- The cheapest of some courses, the first of several. -/
def cheapest? (courses : List Course) : Option Course :=
  courses.foldl (fun best c =>
    match best with
    | none => some c
    | some b => if c.cost < b.cost then some c else some b) none

/-- The course that is left at the end of a source that cannot be read as it is. -/
def follow (lang : Language) (source : List Glyph) (failed : Attempt) : Tries (Option Course) := do
  let all := pieces false (source.length + 1) (beginning source)
  let halt := failed.memory.reach.offset
  let before := all.takeWhile (·.start < halt)
  let c : Course := {
    source
    memory := failed.memory
    since := before.length + before.length / 2
    pace := .reading (some halt) }
  match all.head?, all.getLast? with
  | some first, some last =>
    let courses ← along lang (all.drop before.length) [c]
    let ended ← courses.mapM (finish lang first last (widthOf source))
    return cheapest? (ended.flatten.filter fun c =>
      match c.pace with
      | .reading none => true
      | _ => false)
  | _, _ => return none

end Course

/-- How often a source with errors is read: less often if it is long. -/
def triesFor (source : List Glyph) : Nat := 30 + 200000 / (source.length + 200)

/-- The best way to read a source that cannot be read as it is, unless that takes too many tries. -/
def course? (lang : Language) (source : List Glyph) (failed : Attempt) : Option Course :=
  match Course.follow lang source failed (triesFor source) with
  | (found, _ + 1) => found
  | (_, 0) => none

end Grammar
end Transplant
