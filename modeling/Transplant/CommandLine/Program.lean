import Transplant.CommandLine.Job
import Transplant.Migration.Run

/-!
# The program

The whole program as a function: from the arguments and the files to what is printed, what is
logged, the number that it ends with, and the files as they are afterwards.

* `Program.run`: the program
-/

namespace Transplant
namespace Program

open CommandLine

/-- The name of the program. -/
def name : String := "component-migrator"

/-- The line about a flag in the help text. -/
def flagLine (f : Flag) : String :=
  let spelled := f.spellings.map fun s => if f.takesValue then s ++ " VALUE" else s
  "  " ++ Text.join ", " spelled ++ ": " ++ f.purpose ++ "\n"

/-- What is printed to a user who asks for help. -/
def help : String :=
  s!"usage: {name} [options] source_dir target_dir\n\n" ++
    "Migrate UI function components into a target project's layout, naming and test conventions\n\n" ++
    Text.concat (Flag.all.map flagLine)

/-- The complaint about a command line that makes no sense. -/
def complaint (e : UsageError) : String := s!"{name}: error: {e.message}"

/-- The number that the program ends with if the command line makes no sense. -/
def usageCode : Nat := 2

/-- How the program ends. -/
structure Ending where
  exit : Nat
  printed : String := ""
  /-- The complaint about the command line. -/
  complaint : Option String := none
  log : List LogLine := []
  files : Disk

/-- What the program is not prepared for. -/
inductive Crash where
  | config (fault : ConfigFault)
  /-- A component file is found outside of the source project. -/
  | outside (cause : PathError)
  | project (cause : Project.Trouble)
  /-- Nothing is left of the name of a project. -/
  | unnamed

/-- What is told about something that the program is not prepared for. -/
def Crash.message : Crash → String
  | .config (.rejected e) => e.message
  | .config (.notSearchable value) => s!"no slash can be looked for in {value.shown}"
  | .config (.unwritable _) => DataFault.unwritable
  | .config (.undecodable fault) => fault.message
  | .config (.tooLong digits) => (DataFault.tooLong digits).message
  | .config .unnamed => "the configuration file has no name"
  | .config .uncounted => "the number of workers is no number"
  | .outside cause => (Migration.Fatal.outside cause).message
  | .project cause => (Migration.Fatal.project cause).message
  | .unnamed => "a project has no name"

/-- The program gives up, with one line in the log. -/
def aborted (files : Disk) (message : String) : Ending :=
  { exit := ExitStatus.fatal.code, log := [⟨.error, .commandLine, message⟩], files }

/-- The end of a migration that took place. The events of its report are logged after all else. -/
def finished (o : Migration.Outcome) : Ending where
  exit := o.report.status.code
  printed := o.report.text
  log := o.log ++ o.report.events.map LogLine.ofEvent
  files := o.files

/-- Migrates as a job says. -/
def migrate (job : Job) (files : Disk) : Except Crash Ending :=
  match Migration.run job (fun _ => none) (fun _ _ => false) files with
  | .ok outcome => .ok (finished outcome)
  | .error (.outside cause) => .error (.outside cause)
  | .error (.project cause) => .error (.project cause)
  | .error cause => .ok (aborted files s!"Migration aborted: {cause.message}")

/-- Migrates as a command line says. Projects without a name are noticed where they are looked for,
the source first. -/
def migrateNamed (a : Arguments) (job : Job) (files : Disk) : Except Crash Ending :=
  match a.sourceDir, a.targetDir with
  | .nothing, _ => .error .unnamed
  | .value _, .nothing =>
    if files.isDirectoryAt job.sourceDir then .error .unnamed else migrate job files
  | .value _, .value _ => migrate job files

/-- The program. -/
def run (arguments : List String) (files : Disk) : Except Crash Ending :=
  match Arguments.ofList arguments with
  | .error .help => .ok { exit := 0, printed := help, files }
  | .error (.usage e) => .ok { exit := usageCode, complaint := some (complaint e), files }
  | .ok a =>
    match a.job files with
    | .ok job => migrateNamed a job files
    | .error (.rejected e) => .ok (aborted files s!"Invalid configuration: {e.message}")
    | .error fault => .error (.config fault)

end Program
end Transplant
