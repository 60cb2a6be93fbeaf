import Transplant.Diff.Summary
import Transplant.Migration.Work
import Transplant.Plan.Registry
import Transplant.Report.Basic

/-!
# Committing files

The files of a batch are committed one after the other. A `World` is all that a commit can change:
the files, the registry, the report, and the number of files written.

* `World.write`: writes one file
* `World.commit`: registers, compares or writes what has come out of the work on a file
-/

namespace Transplant

/-- How writing a file goes wrong. -/
inductive WriteFault where
  | system (cause : FileError)
  /-- Something that is no trouble with files, with the word for its kind. -/
  | other (words kind : String)

/-- The failure of a file that cannot be written. -/
def WriteFault.failure (source : String) : WriteFault → Failure
  | .system cause => .unwritable source cause
  | .other words kind => .unexpected words kind

/-- Files that cannot be written, by their paths. -/
abbrev Faults := Path → Option WriteFault

/-- All that a commit can change. -/
structure World where
  files : Disk
  registry : Registry := Registry.empty
  report : Report := {}
  /-- The number of files written. -/
  written : Nat := 0

namespace World

/-- Whether a file has the text already. -/
def unchanged (w : World) (path : Path) (text : String) : Bool :=
  match w.files.readText path with
  | .ok present => present == text
  | .error _ => false

/-- Writes one file. -/
def write (faults : Faults) (w : World) (path : Path) (text : String) :
    World × Option WriteFault :=
  match faults path with
  | some fault => (w, some fault)
  | none =>
    match w.files.write path text with
    | (files, .ok ()) => ({ w with files, written := w.written + 1 }, none)
    | (files, .error e) => ({ w with files }, some (.system e))

/-- Writes files one after the other, up to the first that cannot be written. -/
def writeAll (faults : Faults) (w : World) : List (Path × String) → World × Option WriteFault
  | [] => (w, none)
  | (path, text) :: rest =>
    match w.write faults path text with
    | (w, some fault) => (w, some fault)
    | (w, none) => w.writeAll faults rest

/-- What is written beside a component: its test, then its style files. -/
def extras (b : Batch) (p : Product) : List (Path × String) :=
  (p.test.map fun test => (b.testPath p.plan, test)).toList ++ p.assets

/-- Where the test of a component goes, if it has one. -/
def testPath? (b : Batch) (p : Product) : Option Path := p.test.map fun _ => b.testPath p.plan

/-- The events of a file that needs no change. -/
def upToDate (p : Product) (f : FileEvents) : FileEvents :=
  (f.info s!"Target {p.plan.targetPath.toString} is already up to date").finish .skipped

/-- The events of a file in a dry run: what would be done. -/
def preview (b : Batch) (w : World) (source : String) (p : Product)
    (pending : List (Path × String)) (f : FileEvents) : FileEvents :=
  let move := s!"Would migrate {source} -> {p.plan.targetPath.toString}"
  match Diff.Summary.of w.files p.text p.plan.targetPath p.plan.renames with
  | .error e => ((f.warning e.message).info move).finish .migrated
  | .ok summary =>
    if summary.status = .unchanged && pending.isEmpty then upToDate p f
    else
      let extra := pending.map fun e =>
        if testPath? b p = some e.1 then s!"Would generate tests {e.1.toString}"
        else s!"Would copy style file {e.1.toString}"
      ((move ++ "\n" ++ summary.render) :: extra).foldl FileEvents.info f |>.finish .migrated

/-- The events of a file that has been written. -/
def delivered (b : Batch) (source : String) (p : Product) (pending : List (Path × String))
    (f : FileEvents) : FileEvents :=
  let tests := (testPath? b p).map fun path => s!"Generated tests {path.toString}"
  let copies := (pending.filter fun e => testPath? b p ≠ some e.1).map fun e =>
    s!"Copied style file {e.1.toString}"
  (s!"Migrated {source} -> {p.plan.targetPath.toString}" :: tests.toList ++ copies).foldl
    FileEvents.info f |>.finish .migrated

/-- The world after a registered product has been compared or written, with the events. -/
def deliver (b : Batch) (j : Job) (faults : Faults) (w : World) (source : String) (p : Product)
    (f : FileEvents) : World × FileEvents :=
  let pending := (extras b p).filter fun e => !w.unchanged e.1 e.2
  if j.dryRun then (w, preview b w source p pending f)
  else if w.unchanged p.plan.targetPath p.text && pending.isEmpty then (w, upToDate p f)
  else
    match w.writeAll faults ((p.plan.targetPath, p.text) :: pending) with
    | (w, some fault) => (w, f.fail (fault.failure source))
    | (w, none) => (w, delivered b source p pending f)

/-- The world after the commit of a file, with its events. -/
def settle (b : Batch) (j : Job) (faults : Faults) (w : World) (x : Work) :
    World × FileEvents :=
  match x.product with
  | none => (w, x.events)
  | some p =>
    match w.registry.register p.plan with
    | .error refusal => (w, x.events.fail (.refused refusal))
    | .ok registry => deliver b j faults { w with registry } x.source p x.events

/-- The world after the commit of a file, whose events are in the report. -/
def commit (b : Batch) (j : Job) (faults : Faults) (w : World) (x : Work) : World :=
  let (w, f) := settle b j faults w x
  { w with report := w.report.merge f }

end World
end Transplant
