import Transplant.Migration.Commit
import Transplant.Migration.Discovery
import Transplant.Migration.Schedule
import Transplant.Project.Metadata

/-!
# A whole migration

Both projects are looked at first; then every component file is worked on and committed. What comes
out is the report, the files as they are afterwards, and the log.

* `Migration.settings`: the settings with the aliases of both projects folded in
* `Migration.run`: the migration
-/

namespace Transplant
namespace Migration

/-- Why a migration cannot begin. -/
inductive Fatal where
  | notDirectory (label path : String)
  /-- A component file is found outside of the source project. -/
  | outside (cause : PathError)
  /-- Nothing can be said about one of the projects. -/
  | project (cause : Project.Trouble)
deriving DecidableEq, Repr

/-- The wording of a migration that cannot begin. -/
def Fatal.message : Fatal → String
  | .notDirectory label path => s!"{label} directory does not exist or is not a directory: {path}"
  | .outside cause => cause.message
  | .project (.notObject path) => s!"The manifest {path} is no object"
  | .project (.tooLong digits) => (DataFault.tooLong digits).message

/-- What comes out of a migration. -/
structure Outcome where
  report : Report
  files : Disk
  log : List LogLine

/-- Checks that both projects are there. -/
def checkRoots (j : Job) (files : Disk) : Except Fatal Unit := do
  if !files.isDirectoryAt j.sourceDir then throw (.notDirectory "Source" j.sourceDir.toString)
  if !files.isDirectoryAt j.targetDir then throw (.notDirectory "Target" j.targetDir.toString)

/-- The settings with the aliases of both projects folded in: those of the source become redirects
to those of the target. What is configured goes first. -/
def settings (j : Job) (files : Disk) : Except Fatal (Settings × List LogLine) := do
  let (source, sourceLog) ← (Project.aliases files j.sourceDir).mapError .project
  let (target, targetLog) ← (Project.aliases files j.targetDir).mapError .project
  if source.isEmpty && target.isEmpty then return (j.settings, sourceLog ++ targetLog)
  else
    let seeded := Alias.redirects source target
    let line := s!"Path aliases: {source.size} in source, {target.size} in target, " ++
      s!"{seeded.size} rewritten"
    return ({ j.settings with
        importPrefixes := seeded.merge j.settings.importPrefixes
        targetAliases := target.merge j.settings.targetAliases },
      sourceLog ++ targetLog ++ [⟨.info, .batch, line⟩])

/-- The frameworks whose components can be migrated. -/
def supported : List String := ["react", "next", "preact"]

/-- The warnings about the frameworks of the two projects. -/
def frameworkWarnings (source target : Option String) : List String :=
  ((source.filter fun s => !supported.contains s).map fun s =>
    s!"Source project uses {s}; only React-style function components are migrated").toList ++
  (match source, target with
    | some s, some t =>
      if s = t then [] else [s!"Framework mismatch: source uses {s}, target uses {t}"]
    | _, _ => [])

/-- The events about the frameworks of the two projects, with the log. -/
def frameworkCheck (j : Job) (files : Disk) : Except Fatal (FileEvents × List LogLine) := do
  let (source, sourceLog) ← (Project.framework files j.sourceDir).mapError .project
  let (target, targetLog) ← (Project.framework files j.targetDir).mapError .project
  let line := "Detected frameworks: source=" ++ source.getD "unknown" ++ ", target=" ++
    target.getD "unknown"
  return (({ file := "" } : FileEvents).warnings (frameworkWarnings source target),
    sourceLog ++ targetLog ++ [⟨.info, .batch, line⟩])

/-- The events of a file that was never begun. -/
def notScheduled (source : String) : FileEvents :=
  (({ file := source } : FileEvents).info "Not scheduled: migration was cancelled").finish .skipped

/-- The batch of a migration. -/
def batchOf (j : Job) (s : Settings) (files : Disk) (components : List String) : Batch where
  naming := s.naming
  targetDir := j.targetDir
  files := components
  assets := Discovery.styles files j

/-- The work on the files of a batch and the commits of it, as a schedule takes them. -/
def plant (b : Batch) (j : Job) (faults : Faults) (calledOff : Nat → World → Bool) :
    Schedule.Plant World String Work where
  work w source := Work.process b j w.files source
  commit := World.commit b j faults
  calledOff := calledOff

/-- The world after all files, those never begun included. -/
def processAll (b : Batch) (j : Job) (faults : Faults) (calledOff : Nat → World → Bool)
    (w : World) (components : List String) : World :=
  let (w, remaining) := Schedule.run (plant b j faults calledOff) j.window w components
  { w with report := (remaining.map notScheduled).foldl Report.merge w.report }

/-- The migration. -/
def run (j : Job) (faults : Faults) (calledOff : Nat → World → Bool) (files : Disk) :
    Except Fatal Outcome := do
  checkRoots j files
  let (components, discoveryLog) ← (Discovery.discover files j).mapError .outside
  let (events, frameworkLog) ← frameworkCheck j files
  let (s, aliasLog) ← settings j files
  let b := batchOf j s files components
  let w := processAll b j faults calledOff { files, report := Report.merge {} events } components
  let r := w.report
  return {
    report := r
    files := w.files
    log := discoveryLog ++
      [⟨.info, .batch, s!"Discovered {components.length} component files in " ++
        j.sourceDir.toString⟩] ++ frameworkLog ++ aliasLog ++
      [⟨.info, .batch, s!"Migration finished: {r.migrated} migrated, {r.skipped} skipped, " ++
        s!"{r.failed} failed"⟩] }

end Migration
end Transplant
