import Transplant.Text.Basic

/-!
# Events

What happens to a file is told in events. The events of one file are collected first, together with
what became of the file.
-/

namespace Transplant

/-- How serious an event is. -/
inductive Level where
  | info
  | warning
  | error
deriving DecidableEq, Repr

/-- The word for a level. -/
def Level.name : Level → String
  | .info => "info"
  | .warning => "warning"
  | .error => "error"

/-- The level as log lines show it. -/
def Level.label : Level → String
  | .info => "INFO"
  | .warning => "WARNING"
  | .error => "ERROR"

/-- Something to be told about a file. -/
structure Event where
  level : Level
  file : String
  message : String
  component : Option String := none
  errorKind : Option String := none
deriving DecidableEq, Repr

/-- What became of a file. -/
inductive Outcome where
  | migrated
  | skipped
  | failed
deriving DecidableEq, Repr

/-- The word for an outcome. -/
def Outcome.name : Outcome → String
  | .migrated => "migrated"
  | .skipped => "skipped"
  | .failed => "failed"

/-- The events of one file. -/
structure FileEvents where
  file : String
  component : Option String := none
  events : List Event := []
  outcome : Option Outcome := none
deriving DecidableEq, Repr

namespace FileEvents

/-- The events with one more, which names the component as far as it is known. -/
def add (f : FileEvents) (level : Level) (message : String) (errorKind : Option String) :
    FileEvents :=
  { f with events := f.events ++ [⟨level, f.file, message, f.component, errorKind⟩] }

/-- The events with one more for information. -/
def info (f : FileEvents) (message : String) : FileEvents := f.add .info message none

/-- The events with one more as a warning. -/
def warning (f : FileEvents) (message : String) : FileEvents := f.add .warning message none

/-- The events with an error of a kind. -/
def error (f : FileEvents) (message kind : String) : FileEvents := f.add .error message (some kind)

/-- The events with some more warnings. -/
def warnings (f : FileEvents) (messages : List String) : FileEvents := messages.foldl warning f

/-- The events with an outcome. -/
def finish (f : FileEvents) (outcome : Outcome) : FileEvents := { f with outcome := some outcome }

end FileEvents
end Transplant
