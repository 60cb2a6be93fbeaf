import Transplant.Migration.Run
import Transplant.Proofs.Migration.Inside
import Transplant.Proofs.Schedule.Sequential

/-!
# A migration is its files in order

A migration works on several files at once.  What it leaves behind is what comes from some first
part of the files, worked on and committed one after the other; the rest is only told about.

The schedule itself is dealt with in `Schedule.run_eq_sequential`.  Here its state is a `World`, and
what has to be added is what a commit does to the report: `settle` never touches it, so the report
of a run is the list of what each commit had to tell (`history`), merged in order.

* `World.report_foldl_commit`: the report after some commits
* `Migration.run_commits_first_files`: the migration as a first part of its files in order
* `Migration.steady_of_dryRun`: a dry run changes no file, so its work does not depend on when it is
  begun
-/

namespace Transplant

open Schedule

namespace FileEvents

@[simp] theorem file_add (f : FileEvents) (level : Level) (message : String)
    (kind : Option String) : (f.add level message kind).file = f.file := rfl

@[simp] theorem file_info (f : FileEvents) (message : String) : (f.info message).file = f.file :=
  rfl

@[simp] theorem file_warning (f : FileEvents) (message : String) :
    (f.warning message).file = f.file := rfl

@[simp] theorem file_finish (f : FileEvents) (outcome : Outcome) :
    (f.finish outcome).file = f.file := rfl

@[simp] theorem file_fail (f : FileEvents) (failure : Failure) : (f.fail failure).file = f.file :=
  rfl

@[simp] theorem file_foldl_info (messages : List String) (f : FileEvents) :
    (messages.foldl info f).file = f.file := by
  induction messages generalizing f with
  | nil => rfl
  | cons m rest ih => rw [List.foldl_cons, ih, file_info]

@[simp] theorem file_warnings (f : FileEvents) (messages : List String) :
    (f.warnings messages).file = f.file := by
  unfold warnings
  induction messages generalizing f with
  | nil => rfl
  | cons m rest ih => rw [List.foldl_cons, ih, file_warning]

end FileEvents

namespace Report

@[simp] theorem events_count (r : Report) (outcome : Option Outcome) :
    (r.count outcome).events = r.events := by
  unfold count
  split <;> rfl

@[simp] theorem events_merge (r : Report) (f : FileEvents) :
    (r.merge f).events = r.events ++ f.events := by
  unfold merge
  rw [events_count]

theorem events_foldl_merge (l : List FileEvents) (r : Report) :
    (l.foldl merge r).events = r.events ++ l.flatMap (·.events) := by
  induction l generalizing r with
  | nil => rw [List.foldl_nil, List.flatMap_nil, List.append_nil]
  | cons f rest ih =>
    rw [List.foldl_cons, ih, events_merge, List.flatMap_cons, List.append_assoc]

end Report

/-! ## What a file is told about under -/

namespace Work

@[simp] theorem file_flag (d : Descriptor) (f : FileEvents) : (flag d f).file = f.file := by
  unfold flag
  exact FileEvents.file_warnings _ _

theorem file_finish (b : Batch) (j : Job) (files : Disk) (source : String) (draft : Draft)
    (text : String) (f : FileEvents) : (finish b j files source draft text f).1.file = f.file := by
  unfold finish
  split
  · rfl
  · split
    · exact FileEvents.file_warnings _ _
    · rfl

/-- The events of the work on a file are told under that file. -/
@[simp] theorem file_process (b : Batch) (j : Job) (files : Disk) (source : String) :
    (process b j files source).events.file = source := by
  unfold process
  split
  · rfl
  · split
    · simp
    · rename_i parsed d _ _ draft text _
      have h := file_finish b j files source draft text
        ((flag d { file := source, component := some d.name }).warnings draft.plan.warnings)
      rw [FileEvents.file_warnings, file_flag] at h
      rcases hf : finish b j files source draft text
        ((flag d { file := source, component := some d.name }).warnings draft.plan.warnings)
        with ⟨f, e | product⟩
      all_goals
        rw [hf] at h
        simpa [hf] using h

end Work

/-! ## What commits do to a world -/

namespace World

variable (b : Batch) (j : Job) (faults : Faults)

@[simp] theorem report_write (w : World) (path : Path) (text : String) :
    (w.write faults path text).1.report = w.report := by
  unfold write
  split
  · rfl
  · split <;> rfl

@[simp] theorem report_writeAll (l : List (Path × String)) (w : World) :
    (w.writeAll faults l).1.report = w.report := by
  induction l generalizing w with
  | nil => rfl
  | cons e rest ih =>
    obtain ⟨path, text⟩ := e
    have h := report_write faults w path text
    unfold writeAll
    rcases hw : w.write faults path text with ⟨w', fault | fault⟩
    · rw [hw] at h
      exact (ih w').trans h
    · rw [hw] at h
      exact h

/-- What is to be written beside a component because it is not there yet. -/
def pending (w : World) (p : Product) : List (Path × String) :=
  (extras b p).filter fun e => !w.unchanged e.1 e.2

/-- All that is written for a component that is not up to date. -/
def outputs (w : World) (p : Product) : List (Path × String) :=
  (p.plan.targetPath, p.text) :: pending b w p

theorem deliver_eq (w : World) (source : String) (p : Product) (f : FileEvents) :
    deliver b j faults w source p f =
      if j.dryRun then (w, preview b w source p (pending b w p) f)
      else if w.unchanged p.plan.targetPath p.text && (pending b w p).isEmpty then (w, upToDate p f)
      else match w.writeAll faults (outputs b w p) with
        | (after, some fault) => (after, f.fail (fault.failure source))
        | (after, none) => (after, delivered b source p (pending b w p) f) := rfl

/-- What can become of a registered product: a dry run only looks, a product that is there already
is left, and otherwise everything is written up to the first fault. -/
theorem deliver_cases (w : World) (source : String) (p : Product) (f : FileEvents) :
    (j.dryRun = true ∧
      deliver b j faults w source p f = (w, preview b w source p (pending b w p) f)) ∨
    (j.dryRun = false ∧ deliver b j faults w source p f = (w, upToDate p f)) ∨
    (j.dryRun = false ∧ ∃ fault, (w.writeAll faults (outputs b w p)).2 = some fault ∧
      deliver b j faults w source p f =
        ((w.writeAll faults (outputs b w p)).1, f.fail (fault.failure source))) ∨
    (j.dryRun = false ∧ (w.writeAll faults (outputs b w p)).2 = none ∧
      deliver b j faults w source p f =
        ((w.writeAll faults (outputs b w p)).1, delivered b source p (pending b w p) f)) := by
  rw [deliver_eq]
  cases hdry : j.dryRun with
  | true => exact Or.inl ⟨rfl, if_pos rfl⟩
  | false =>
    rw [if_neg (by decide)]
    refine Or.inr ?_
    split
    · exact Or.inl ⟨rfl, rfl⟩
    · refine Or.inr ?_
      rcases hall : w.writeAll faults (outputs b w p) with ⟨after, _ | fault⟩
      · exact Or.inr ⟨rfl, rfl, rfl⟩
      · exact Or.inl ⟨rfl, fault, rfl, rfl⟩

@[simp] theorem report_deliver (w : World) (source : String) (p : Product) (f : FileEvents) :
    (deliver b j faults w source p f).1.report = w.report := by
  obtain ⟨-, h⟩ | ⟨-, h⟩ | ⟨-, fault, -, h⟩ | ⟨-, -, h⟩ := deliver_cases b j faults w source p f
  · rw [h]
  · rw [h]
  · rw [h, report_writeAll]
  · rw [h, report_writeAll]

theorem file_preview (w : World) (source : String) (p : Product) (l : List (Path × String))
    (f : FileEvents) : (preview b w source p l f).file = f.file := by
  unfold preview
  split
  · rfl
  · split
    · rfl
    · exact FileEvents.file_foldl_info _ f

theorem file_delivered (source : String) (p : Product) (l : List (Path × String))
    (f : FileEvents) : (delivered b source p l f).file = f.file :=
  FileEvents.file_foldl_info _ f

@[simp] theorem file_deliver (w : World) (source : String) (p : Product) (f : FileEvents) :
    (deliver b j faults w source p f).2.file = f.file := by
  obtain ⟨-, h⟩ | ⟨-, h⟩ | ⟨-, fault, -, h⟩ | ⟨-, -, h⟩ := deliver_cases b j faults w source p f
  · rw [h, file_preview]
  · rw [h]
    rfl
  · rw [h, FileEvents.file_fail]
  · rw [h, file_delivered]

/-- Settling a file leaves the report to the commit. -/
@[simp] theorem report_settle (w : World) (x : Work) :
    (settle b j faults w x).1.report = w.report := by
  unfold settle
  split
  · rfl
  · split
    · rfl
    · rw [report_deliver]

/-- The events of a settled file are told under the same file as those of its work. -/
@[simp] theorem file_settle (w : World) (x : Work) :
    (settle b j faults w x).2.file = x.events.file := by
  unfold settle
  split
  · rfl
  · split
    · rfl
    · rw [file_deliver]

theorem report_commit (w : World) (x : Work) :
    (commit b j faults w x).report = w.report.merge (settle b j faults w x).2 := by
  show (settle b j faults w x).1.report.merge (settle b j faults w x).2 = _
  rw [report_settle]

/-- What the commits of some work, one after the other, have to tell. -/
def history (w : World) : List Work → List FileEvents
  | [] => []
  | x :: rest => (settle b j faults w x).2 :: history (commit b j faults w x) rest

/-- The report after some commits is what they had to tell, merged in order. -/
theorem report_foldl_commit (works : List Work) (w : World) :
    (works.foldl (commit b j faults) w).report =
      (history b j faults w works).foldl Report.merge w.report := by
  induction works generalizing w with
  | nil => rfl
  | cons x rest ih => rw [List.foldl_cons, ih, history, List.foldl_cons, report_commit]

/-- Every commit tells about its own file. -/
theorem map_file_history (works : List Work) (w : World) :
    (history b j faults w works).map (·.file) = works.map (·.events.file) := by
  induction works generalizing w with
  | nil => rfl
  | cons x rest ih => rw [history, List.map_cons, List.map_cons, ih, file_settle]

/-! ## Dry runs -/

theorem files_settle_of_dryRun (hdry : j.dryRun = true) (w : World) (x : Work) :
    (settle b j faults w x).1.files = w.files := by
  unfold settle
  split
  · rfl
  · split
    · rfl
    · obtain ⟨-, h⟩ | ⟨hno, -⟩ | ⟨hno, -⟩ | ⟨hno, -⟩ :=
        deliver_cases b j faults _ x.source _ x.events
      · rw [h]
      all_goals exact absurd (hdry.symm.trans hno) (by decide)

theorem files_foldl_commit_of_dryRun (hdry : j.dryRun = true) (works : List Work) (w : World) :
    (works.foldl (commit b j faults) w).files = w.files := by
  induction works generalizing w with
  | nil => rfl
  | cons x rest ih =>
    rw [List.foldl_cons, ih]
    exact files_settle_of_dryRun b j faults hdry w x

end World

theorem Job.window_pos (j : Job) : 0 < j.window := by
  unfold Job.window
  omega

namespace Migration

/-- A migration that can begin, with what it finds before the first file. -/
structure Ready (j : Job) (files : Disk) where
  events : FileEvents
  settings : Settings
  frameworkLog : List LogLine
  aliasLog : List LogLine
  roots : checkRoots j files = .ok ()
  inside : Discovery.stray? files j = none
  framework : frameworkCheck j files = .ok (events, frameworkLog)
  aliases : Migration.settings j files = .ok (settings, aliasLog)

namespace Ready

variable {j : Job} {files : Disk} (g : Ready j files)

/-- The files that are found, in order. -/
def found (_ : Ready j files) : List String := (Discovery.components files j).1

/-- The batch that the files make. -/
def batch : Batch := batchOf j g.settings files g.found

/-- The world before the first file: only the check of the frameworks is in the report. -/
def opening : World := { files, report := Report.merge {} g.events }

/-- The work on the files and the commits of it. -/
def schedule (faults : Faults) (calledOff : Nat → World → Bool) : Plant World String Work :=
  plant g.batch j faults calledOff

/-- The world after the last file. -/
def closing (faults : Faults) (calledOff : Nat → World → Bool) : World :=
  processAll g.batch j faults calledOff g.opening g.found

/-- The work on the first `k` files. -/
def works (k : Nat) : List Work := (g.found.take k).map (Work.process g.batch j files)

/-- The world after the first `k` files have been committed one after the other. -/
def committed (faults : Faults) (k : Nat) : World :=
  (g.works k).foldl (World.commit g.batch j faults) g.opening

/-- What the commits of the first `k` files, one after the other, have to tell. -/
def told (faults : Faults) (k : Nat) : List FileEvents :=
  World.history g.batch j faults g.opening (g.works k)

theorem sequential_schedule (faults : Faults) (calledOff : Nat → World → Bool) (k : Nat) :
    sequential (g.schedule faults calledOff) g.opening (g.found.take k) = g.committed faults k := by
  unfold sequential committed works
  rw [List.foldl_map]
  rfl

/-- The outcome of the migration for a world after the last file. -/
def outcome (w : World) : Outcome :=
  let r := w.report
  { report := r
    files := w.files
    log := (Discovery.components files j).2 ++
      [⟨.info, .batch, s!"Discovered {g.found.length} component files in " ++
        j.sourceDir.toString⟩] ++ g.frameworkLog ++ g.aliasLog ++
      [⟨.info, .batch, s!"Migration finished: {r.migrated} migrated, {r.skipped} skipped, " ++
        s!"{r.failed} failed"⟩] }

/-- The migration goes through, and its outcome is read off the world after the last file. -/
theorem run_eq (faults : Faults) (calledOff : Nat → World → Bool) :
    run j faults calledOff files = .ok (g.outcome (g.closing faults calledOff)) := by
  unfold run
  rw [g.roots, Discovery.discover_of_stray? g.inside, g.framework, g.aliases]
  rfl

/-- The same migration with another number of workers. -/
def withWorkers (m : Int) : Ready { j with maxWorkers := m } files :=
  ⟨g.events, g.settings, g.frameworkLog, g.aliasLog, g.roots, g.inside, g.framework, g.aliases⟩

/-- The world after the last file is the one after the first `k` of them in order, with a word about
each of the others. -/
theorem closing_eq (faults : Faults) (calledOff : Nat → World → Bool)
    (hs : Steady (g.schedule faults calledOff) g.opening g.found) :
    ∃ k ≤ g.found.length, g.closing faults calledOff =
        { g.committed faults k with
          report := ((g.found.drop k).map notScheduled).foldl Report.merge
            (g.committed faults k).report } ∧
      ((∀ n w, calledOff n w = false) → k = g.found.length) := by
  obtain ⟨k, hk, hrun, hcalm⟩ :=
    run_eq_sequential (g.schedule faults calledOff) j.window_pos g.opening hs
  refine ⟨k, hk, ?_, hcalm⟩
  rw [sequential_schedule] at hrun
  show processAll g.batch j faults calledOff g.opening g.found = _
  unfold processAll
  rw [show plant g.batch j faults calledOff = g.schedule faults calledOff from rfl, hrun]

/-- A dry run changes no file, so the work on a file comes to the same whenever it is begun. -/
theorem steady_of_dryRun (hdry : j.dryRun = true) (faults : Faults)
    (calledOff : Nat → World → Bool) : Steady (g.schedule faults calledOff) g.opening g.found := by
  intro k a _
  have hfiles : (g.committed faults k).files = files :=
    World.files_foldl_commit_of_dryRun g.batch j faults hdry (g.works k) g.opening
  rw [sequential_schedule]
  show Work.process g.batch j (g.committed faults k).files a = Work.process g.batch j files a
  rw [hfiles]

theorem report_committed (faults : Faults) (k : Nat) :
    (g.committed faults k).report = (g.events :: g.told faults k).foldl Report.merge {} :=
  World.report_foldl_commit g.batch j faults (g.works k) g.opening

theorem map_file_told (faults : Faults) (k : Nat) :
    (g.told faults k).map (·.file) = g.found.take k := by
  unfold told works
  rw [World.map_file_history, List.map_map]
  simp [Function.comp_def]

end Ready

/-- **A migration is a first part of its files in order.**  Whatever the number of workers and
whenever it is called off, there is a `k` such that the files and the registry are those of
committing the first `k` files one after the other, each once; and the report is what the check of
the frameworks, then these commits, then the files that were never begun have to tell.  A migration
that is not called off commits all files, whatever the number of workers. -/
theorem run_commits_first_files {j : Job} {files : Disk} (g : Ready j files) (faults : Faults)
    (calledOff : Nat → World → Bool)
    (hsteady : Steady (g.schedule faults calledOff) g.opening g.found) :
    ∃ k ≤ g.found.length, ∃ w : World,
      run j faults calledOff files = .ok (g.outcome w) ∧
      w.files = (g.committed faults k).files ∧
      w.registry = (g.committed faults k).registry ∧
      (g.told faults k).map (·.file) = g.found.take k ∧
      w.report = (g.events :: g.told faults k ++ (g.found.drop k).map notScheduled).foldl
        Report.merge {} ∧
      w.report.events = g.events.events ++ (g.told faults k).flatMap (·.events) ++
        ((g.found.drop k).map fun source =>
          ⟨.info, source, "Not scheduled: migration was cancelled", none, none⟩) ∧
      ((∀ n w, calledOff n w = false) → k = g.found.length ∧
        ∀ m : Int, run { j with maxWorkers := m } faults calledOff files =
          run j faults calledOff files) := by
  obtain ⟨k, hk, hclosing, hcalm⟩ := g.closing_eq faults calledOff hsteady
  have hreport : (g.closing faults calledOff).report =
      (g.events :: g.told faults k ++ (g.found.drop k).map notScheduled).foldl Report.merge {} := by
    rw [hclosing, List.foldl_append, ← g.report_committed]
  refine ⟨k, hk, g.closing faults calledOff, g.run_eq faults calledOff, ?_, ?_,
    g.map_file_told faults k, hreport, ?_, fun hc => ⟨hcalm hc, fun m => ?_⟩⟩
  · rw [hclosing]
  · rw [hclosing]
  · have hleft : ((g.found.drop k).map notScheduled).flatMap (·.events) =
        (g.found.drop k).map fun source =>
          ⟨.info, source, "Not scheduled: migration was cancelled", none, none⟩ := by
      rw [List.flatMap_map, List.map_eq_flatMap]
      rfl
    rw [hreport, Report.events_foldl_merge, List.cons_append, List.flatMap_cons,
      List.flatMap_append, hleft, List.append_assoc]
    exact List.nil_append _
  · -- the number of workers only sets the window, and all files are committed for every window
    obtain ⟨k', -, hclosing', hcalm'⟩ := (g.withWorkers m).closing_eq faults calledOff hsteady
    have hsame : (g.withWorkers m).closing faults calledOff = g.closing faults calledOff := by
      rw [hclosing, hclosing', hcalm hc, hcalm' hc]
      rfl
    rw [(g.withWorkers m).run_eq faults calledOff, hsame, g.run_eq faults calledOff]
    rfl

/-- A disk with a source project of two files and an empty target project. -/
def twoFiles : Disk where
  top := .directory
    [("source", .directory [("B.jsx", .file [255]), ("A.jsx", .file [255])]),
      ("target", .directory [])]

/-- A dry run over the two files. -/
def rehearsal : Job where
  sourceDir := ⟨"", ["source"]⟩
  targetDir := ⟨"", ["target"]⟩
  dryRun := true
  maxWorkers := -3

/-- The rehearsal can begin. -/
def rehearsalReady : Ready rehearsal twoFiles where
  events := { file := "" }
  settings := {}
  frameworkLog := _
  aliasLog := _
  roots := by rfl
  inside := Discovery.stray?_of_nil twoFiles rfl
  framework := by rfl
  aliases := by rfl

theorem sort_swapped {a b : String} (h : Text.notAfter a b = false) : Text.sort [a, b] = [b, a] := by
  simp [Text.sort, List.mergeSort, h]

/-- The rehearsal, called off at the second asking, commits a first part of `A.jsx` and `B.jsx`. -/
theorem rehearsal_commits_first_files :
    rehearsalReady.found = ["A.jsx", "B.jsx"] ∧
    ∃ k ≤ 2, ∃ w : World,
      run rehearsal (fun _ => none) (fun n _ => decide (1 ≤ n)) twoFiles =
        .ok (rehearsalReady.outcome w) ∧
      w.files = (rehearsalReady.committed (fun _ => none) k).files ∧
      w.registry = (rehearsalReady.committed (fun _ => none) k).registry ∧
      (rehearsalReady.told (fun _ => none) k).map (·.file) = ["A.jsx", "B.jsx"].take k := by
  have hfound : rehearsalReady.found = ["A.jsx", "B.jsx"] := by
    have hsearch : (Discovery.search? twoFiles rehearsal Discovery.isComponent "").getD [] =
        ["B.jsx", "A.jsx"] := by decide
    show Text.sort (Text.distinct
      ((Discovery.search? twoFiles rehearsal Discovery.isComponent "").getD [] ++ [])) = _
    rw [hsearch]
    exact sort_swapped (by decide)
  obtain ⟨k, hk, w, hrun, hfiles, hregistry, htold, -⟩ :=
    run_commits_first_files rehearsalReady (fun _ => none) (fun n _ => decide (1 ≤ n))
      (rehearsalReady.steady_of_dryRun rfl _ _)
  rw [hfound] at hk htold
  exact ⟨hfound, k, hk, w, hrun, hfiles, hregistry, htold⟩

end Migration
end Transplant
