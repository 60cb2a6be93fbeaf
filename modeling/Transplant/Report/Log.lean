import Transplant.Report.Event

/-!
# Log lines

What a program tells while it works, as values: a level, the part of the program that speaks, and
the message.
-/

namespace Transplant

/-- The part of the program that speaks. -/
inductive Channel where
  | batch
  | config
  | report
  | commandLine
deriving DecidableEq, Repr

/-- The name under which a part speaks. -/
def Channel.name : Channel → String
  | .batch => "component_migrator.orchestrator"
  | .config => "component_migrator.config"
  | .report => "component_migrator.report"
  | .commandLine => "component_migrator.cli"

/-- A line of the log. -/
structure LogLine where
  level : Level
  channel : Channel
  message : String
deriving DecidableEq, Repr

namespace LogLine

/-- The text of a line. -/
def text (l : LogLine) : String := s!"{l.level.label} {l.channel.name}: {l.message}"

/-- The line for an event of a report. -/
def ofEvent (e : Event) : LogLine :=
  let place := if e.file = "" then "batch" else e.file
  let component := ((e.component.filter (· ≠ "")).map fun c => s!" [{c}]").getD ""
  ⟨e.level, .report, place ++ component ++ ": " ++ e.message⟩

end LogLine
end Transplant
