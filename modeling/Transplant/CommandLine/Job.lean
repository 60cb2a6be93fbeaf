import Transplant.CommandLine.Arguments
import Transplant.Config.File
import Transplant.Migration.Job

/-!
# From command lines to jobs

A job is configured by a file, and what the command line asks for goes over it.

* `Requests.over`: settings with what the flags ask for put over them
* `Arguments.job`: the job that a command line asks for
-/

namespace Transplant
namespace CommandLine

/-- A text that is given and not empty. -/
def nonempty? (given : Option (Given String)) : Option String :=
  (given.bind (·.value?)).filter (· ≠ "")

/-- The table in a configuration under a name, empty if it is not there. -/
def tableOf (data : Table Value) (name : String) : Except ConfigFault (Table Value) :=
  match data.get? name with
  | none => .ok Table.empty
  | some (.table entries) => .ok (Table.ofPairs entries)
  | some _ => .error (.rejected (.notTable name))

/-- The table with that of some patterns put over it. -/
def withPatterns (present : Table String) (patterns : List (Given String)) :
    Except ConfigFault (Table String) := do
  let table ← (Pattern.table (patterns.map (·.shown))).mapError fun e => .rejected (.badPattern e)
  return present.merge table

/-- The settings with what the flags ask for put over them, checked. -/
def Requests.over (r : Requests) (s : Settings) : Except ConfigFault Settings := do
  let importPrefixes ← withPatterns s.importPrefixes r.importPrefixes
  let renames ← withPatterns s.renames r.renames
  { s with
    importPrefixes, renames
    suffix := ((nonempty? r.tag).map fun tag => Value.text (Settings.suffixFor tag)).getD s.suffix
    defaultStyle := ((nonempty? r.defaultStyle).map Value.text).getD s.defaultStyle
    testAttribute := ((nonempty? r.testAttribute).map Value.text).getD s.testAttribute
    mismatch := if r.strictImports then .text "strict" else s.mismatch }.validate

/-- How many files are worked on at once: at least one, and four if nobody asks. -/
def Requests.workerCount (r : Requests) : Except ConfigFault Int :=
  match r.workers with
  | none => .ok 4
  | some .nothing => .error .uncounted
  | some (.value n) => if n < 1 then .error (.rejected (.tooFewWorkers n)) else .ok n

/-- The configuration file that is asked for, if there is one. -/
def Requests.configFile (r : Requests) : Except ConfigFault (Option Path) :=
  match r.config with
  | none => .ok none
  | some (.value path) => .ok (some path)
  | some .nothing => .error .unnamed

/-- The directory that is given. If nothing is, it is named by what is shown of that. -/
def directory (given : Given Path) : Path :=
  given.value?.getD (Path.ofString (Given.shown .nothing))

/-- The job that a command line asks for. -/
def Arguments.job (a : Arguments) (files : Disk) : Except ConfigFault Job := do
  let data ← ConfigFile.load files (← a.requests.configFile) Path.here
  let configured ← ({} : Settings).update (← tableOf data "naming")
  let settings ← a.requests.over configured
  let discoveryTable ← tableOf data "discovery"
  let maxWorkers ← a.requests.workerCount
  let discovery ← (ConfigFile.discovery discoveryTable).mapError .rejected
  let job : Job := {
    sourceDir := directory a.sourceDir
    targetDir := directory a.targetDir
    generateTests := a.requests.generateTests
    dryRun := a.requests.dryRun
    settings, maxWorkers }
  return { job with
    componentDirs := discovery.componentDirs.getD job.componentDirs
    ignoreDirs := discovery.ignoreDirs.getD job.ignoreDirs }

end CommandLine
end Transplant
