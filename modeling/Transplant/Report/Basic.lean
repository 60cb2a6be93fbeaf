import Transplant.Report.Event

/-!
# Reports

The report of a batch holds the events of its files one after the other and counts what became of
them.

* `Report.merge`: the report with the events of one more file
* `Report.failures`: the errors in it
* `Report.status`: what the whole comes to
* `Report.text`: what is printed in the end
-/

namespace Transplant

/-- Events in order, and how many files had which outcome. -/
structure Report where
  events : List Event := []
  migrated : Nat := 0
  skipped : Nat := 0
  failed : Nat := 0
deriving DecidableEq, Repr

/-- What a batch comes to. -/
inductive ExitStatus where
  | success
  | partialSuccess
  | hardFailure
  /-- The batch did not even begin. -/
  | fatal
deriving DecidableEq, Repr

/-- The word for a status. -/
def ExitStatus.name : ExitStatus → String
  | .success => "Success"
  | .partialSuccess => "PartialSuccess"
  | .hardFailure => "HardFailure"
  | .fatal => "FatalError"

/-- The number that a program ends with. -/
def ExitStatus.code : ExitStatus → Nat
  | .success => 0
  | .hardFailure => 1
  | .partialSuccess => 2
  | .fatal => 3

namespace Report

/-- The report with one more event. -/
def append (r : Report) (e : Event) : Report := { r with events := r.events ++ [e] }

/-- The report with one more outcome counted. -/
def count (r : Report) : Option Outcome → Report
  | some .migrated => { r with migrated := r.migrated + 1 }
  | some .skipped => { r with skipped := r.skipped + 1 }
  | some .failed => { r with failed := r.failed + 1 }
  | none => r

/-- The report with the events of one more file. -/
def merge (r : Report) (f : FileEvents) : Report :=
  { r with events := r.events ++ f.events }.count f.outcome

/-- The errors in the report. -/
def failures (r : Report) : List Event := r.events.filter (·.level == .error)

/-- What the batch comes to: nothing migrated is a failure, some files failed is half a success. -/
def status (r : Report) : ExitStatus :=
  if r.migrated = 0 then .hardFailure else if r.failed > 0 then .partialSuccess else .success

/-- The line of a failure. -/
def failureLine (e : Event) : String :=
  let kind := (e.errorKind.filter (· ≠ "")).getD "Error"
  s!"FAILED {e.file}: {kind}: {e.message}\n"

/-- What is printed in the end. -/
def text (r : Report) : String :=
  s!"Migrated: {r.migrated}  Skipped: {r.skipped}  Failed: {r.failed}\n" ++
    Text.concat (r.failures.map failureLine)

end Report
end Transplant
