import Transplant.Proofs.Migration.SecondRun
import Transplant.Proofs.Schedule.Order

/-!
# Only what is committed is written

The files change through the writer alone, so a run is known by what it passes to the writer, call
by call.  This file lists the calls (`World.passed`), says whose files they are, and says what is on
the disk when a file has been migrated.

## Calls

The writer is called for one file after the other, and no more once a call has gone wrong; the call
that has gone wrong is the last one (`Disk.calls`).  What it has been called for is therefore a
first part of what a commit hands to it, and the disk is the one at the start after all these calls.

## Reading back

A file is written without looking at the other files of its product.  They stay as they are if they
are elsewhere, and that is a question of places: `x/../y` and `y` are two paths and one place.
`Disk.Coherent` asks for one text at each place; distinct paths are not enough.

* `World.Confined`: what one commit passes to the writer and leaves on the disk
* `Migration.only_committed_files_written`: the same along a run
-/

namespace Transplant

open Schedule

namespace Disk

/-- The disk after one call of the writer. -/
def send (faults : Faults) (d : Disk) (e : Path × String) : Disk :=
  match faults e.1 with
  | some _ => d
  | none => (d.write e.1 e.2).1

/-- Whether one call of the writer goes well. -/
def accepts (faults : Faults) (d : Disk) (e : Path × String) : Bool :=
  (faults e.1).isNone && (d.write e.1 e.2).2.isOk

/-- The calls of the writer for some files, up to the first that goes wrong. -/
def calls (faults : Faults) (d : Disk) : List (Path × String) → List (Path × String)
  | [] => []
  | e :: rest => e :: if d.accepts faults e then calls faults (d.send faults e) rest else []

theorem calls_of_accepts {faults : Faults} {d : Disk} {e : Path × String}
    (h : d.accepts faults e = true) (rest : List (Path × String)) :
    d.calls faults (e :: rest) = e :: (d.send faults e).calls faults rest := by
  rw [calls, if_pos h]

theorem calls_of_not_accepts {faults : Faults} {d : Disk} {e : Path × String}
    (h : d.accepts faults e = false) (rest : List (Path × String)) :
    d.calls faults (e :: rest) = [e] := by
  rw [calls, if_neg (Bool.not_eq_true _ ▸ h)]

theorem calls_prefix (faults : Faults) (l : List (Path × String)) (d : Disk) :
    d.calls faults l <+: l := by
  induction l generalizing d with
  | nil => exact List.prefix_rfl
  | cons e rest ih =>
    unfold calls
    split
    · exact List.cons_prefix_cons.mpr ⟨rfl, ih (d.send faults e)⟩
    · exact List.cons_prefix_cons.mpr ⟨rfl, List.nil_prefix⟩

end Disk

namespace World

variable (b : Batch) (j : Job) (faults : Faults)

/-- A write is one call of the writer, and it meets a fault if the call does not go well. -/
theorem write_eq_send (w : World) (e : Path × String) :
    (w.write faults e.1 e.2).1.files = w.files.send faults e ∧
      (w.write faults e.1 e.2).2.isNone = w.files.accepts faults e := by
  unfold write Disk.send Disk.accepts
  cases faults e.1 with
  | some fault => exact ⟨rfl, rfl⟩
  | none =>
    dsimp only
    rcases w.files.write e.1 e.2 with ⟨d, error | ok⟩
    · exact ⟨rfl, rfl⟩
    · exact ⟨rfl, rfl⟩

/-- The disk after the writer has been at work is the one before, after all its calls. -/
theorem files_writeAll (l : List (Path × String)) (w : World) :
    (w.writeAll faults l).1.files = (w.files.calls faults l).foldl (Disk.send faults) w.files := by
  induction l generalizing w with
  | nil => rfl
  | cons e rest ih =>
    obtain ⟨hfiles, haccepts⟩ := write_eq_send faults w e
    unfold writeAll
    split
    · rename_i w' fault hwrite
      rw [hwrite] at hfiles haccepts
      rw [Disk.calls_of_not_accepts haccepts.symm]
      exact hfiles
    · rename_i w' hwrite
      rw [hwrite] at hfiles haccepts
      rw [Disk.calls_of_accepts haccepts.symm, List.foldl_cons, ← hfiles]
      exact ih w'

/-! ## Single commits -/

/-- What the commit of some work passes to the writer. -/
def passedBy (w : World) (x : Work) : List (Path × String) :=
  w.files.calls faults (handed b j w x)

theorem files_commit_eq (w : World) (x : Work) :
    (commit b j faults w x).files =
      (passedBy b j faults w x).foldl (Disk.send faults) w.files := by
  rw [files_commit, delivery, files_writeAll]
  rfl

theorem mem_handed_of_mem_passedBy {w : World} {x : Work} {e : Path × String}
    (h : e ∈ passedBy b j faults w x) : e ∈ handed b j w x :=
  (Disk.calls_prefix faults _ _).subset h

/-- A commit that hands nothing to the writer passes nothing to it, and leaves the files. -/
theorem untouched_of_handed_nil {w : World} {x : Work} (h : handed b j w x = []) :
    passedBy b j faults w x = [] ∧ (commit b j faults w x).files = w.files := by
  have hpassed : passedBy b j faults w x = [] := by
    rw [passedBy, h]
    rfl
  rw [files_commit_eq, hpassed]
  exact ⟨rfl, rfl⟩

theorem admitted?_eq_some_iff {r : Registry} {x : Work} {p : Product} :
    admitted? r x = some p ↔ x.product = some p ∧ r.register p.plan = .ok (r.accept p.plan) := by
  rw [admitted?, Option.filter_eq_some_iff, Registry.register]
  refine and_congr_right fun _ => ?_
  cases r.conflict? p.plan with
  | none => exact ⟨fun _ => rfl, fun _ => rfl⟩
  | some conflict => exact ⟨nofun, nofun⟩

theorem registry_commit_of_admitted {w : World} {x : Work} {p : Product}
    (hp : admitted? w.registry x = some p) :
    (commit b j faults w x).registry = w.registry.accept p.plan := by
  rw [registry_commit, enrol, hp]

/-- Work that has failed, or that the registry refuses. -/
def Rejected (r : Registry) (x : Work) : Prop :=
  x.product = none ∨ ∃ p refusal, x.product = some p ∧ r.register p.plan = .error refusal

theorem admitted?_of_rejected {r : Registry} {x : Work} (h : Rejected r x) :
    admitted? r x = none := by
  rw [Option.eq_none_iff_forall_ne_some]
  intro p hp
  rw [admitted?_eq_some_iff] at hp
  obtain ⟨hproduct, hregister⟩ := hp
  rcases h with hnone | ⟨q, refusal, hq, hrefused⟩
  · rw [hnone] at hproduct
    cases hproduct
  · obtain rfl := Option.some.inj (hproduct.symm.trans hq)
    rw [hregister] at hrefused
    cases hrefused

/-- The outcome is `migrated` only if the product has been admitted and was not complete, and then
the writer has met no fault. -/
theorem admitted_of_migrated {w : World} {x : Work} (hx : x.Proper b)
    (h : (settle b j faults w x).2.outcome = some .migrated) :
    (delivery b j faults w x).2 = none ∧
      ∃ p, admitted? w.registry x = some p ∧ complete b w p = false := by
  rw [outcome_settle b j faults w hx] at h
  cases hfault : (delivery b j faults w x).2 with
  | some fault => rw [hfault] at h; cases h
  | none =>
    rw [hfault] at h
    refine ⟨rfl, ?_⟩
    unfold verdict at h
    cases hadmitted : admitted? w.registry x with
    | none => rw [hadmitted] at h; cases h
    | some p =>
      refine ⟨p, rfl, Bool.eq_false_iff.mpr fun hcomplete => ?_⟩
      rw [hadmitted] at h
      dsimp only at h
      rw [if_pos hcomplete] at h
      cases h

/-- A skipped file has handed nothing to the writer. -/
theorem handed_of_skipped {w : World} {x : Work} (hx : x.Proper b)
    (h : (settle b j faults w x).2.outcome = some .skipped) : handed b j w x = [] := by
  rw [outcome_settle b j faults w hx] at h
  unfold handed
  split
  · rfl
  · rename_i p hp
    refine if_pos ?_
    rw [Bool.or_eq_true]
    refine Or.inr (Bool.not_eq_false _ ▸ fun hcomplete => ?_)
    unfold verdict at h
    rw [hp] at h
    dsimp only at h
    rw [hcomplete] at h
    split at h <;> cases h

/-- The component is on the disk byte for byte after a commit that meets no fault. -/
theorem readBytes_commit {w : World} {x : Work} {p : Product} (hreal : j.dryRun = false)
    (hcoherent : w.files.Coherent (p.files b)) (hp : admitted? w.registry x = some p)
    (hx : x.Proper b) (hcomplete : complete b w p = false)
    (hnone : (delivery b j faults w x).2 = none) :
    (commit b j faults w x).files.readBytes p.plan.targetPath = .ok (Utf8.encode p.text) := by
  have hhanded : handed b j w x = outputs b w p := by
    rw [handed_of_admitted b j hp, hreal, hcomplete]
    rfl
  rw [files_commit]
  refine writeAll_leaves faults (Q := fun d e => d.readBytes e.1 = .ok (Utf8.encode e.2))
    (fun d e _ hplaced hok => (Disk.write_cases hplaced e.2).2 hok)
    (fun d e _ e' _ hplaced hok hsame hthere => Disk.readBytes_write hthere hplaced hok hsame)
    (handed b j w x) { w with registry := enrol w.registry x } hcoherent (fun e he => ?_) hnone
    (e := (p.plan.targetPath, p.text)) List.mem_cons_self
    (Or.inl (hhanded ▸ List.mem_cons_self))
  rw [hhanded] at he
  have hmem := mem_files_of_mem_outputs b he
  exact ⟨hmem, hx.placed p (product_of_admitted? hp) e hmem⟩

/-- A path that belongs to a product: that of the component, that of its test if it has one, or that
of one of its style files. -/
def IsTarget (p : Product) (path : Path) : Prop :=
  path = p.plan.targetPath ∨ (p.test ≠ none ∧ path = b.testPath p.plan) ∨
    ∃ asset ∈ p.plan.assets, b.assetPath asset = .ok path

/-- What one commit passes to the writer and what it leaves on the disk. -/
structure Confined (w : World) (x : Work) : Prop where
  /-- Only files of a product that is registered are written, and only a run that is no dry one
  writes. -/
  targets : ∀ e ∈ passedBy b j faults w x, j.dryRun = false ∧ ∃ p, x.product = some p ∧
    w.registry.register p.plan = .ok (commit b j faults w x).registry ∧ IsTarget b p e.1
  rejected : Rejected w.registry x → (settle b j faults w x).2.outcome = some .failed ∧
    passedBy b j faults w x = [] ∧ (commit b j faults w x).files = w.files
  skipped : (settle b j faults w x).2.outcome = some .skipped →
    passedBy b j faults w x = [] ∧ (commit b j faults w x).files = w.files
  /-- A migrated file is on the disk, with all that belongs to it. -/
  migrated : j.dryRun = false → (settle b j faults w x).2.outcome = some .migrated →
    ∃ p, x.product = some p ∧ (w.files.Coherent (p.files b) →
      (∀ e ∈ p.files b, (commit b j faults w x).files.readText e.1 = .ok e.2) ∧
      (commit b j faults w x).files.readBytes p.plan.targetPath = .ok (Utf8.encode p.text))

theorem confined {w : World} {x : Work} (hx : x.Proper b)
    (hassets : ∀ p, x.product = some p → ∀ e ∈ p.assets,
      ∃ asset ∈ p.plan.assets, b.assetPath asset = .ok e.1) : Confined b j faults w x where
  targets e he := by
    have hhanded := mem_handed_of_mem_passedBy b j faults he
    obtain ⟨p, hp, hmem⟩ := exists_of_mem_handed b j hhanded
    obtain ⟨hproduct, hregister⟩ := admitted?_eq_some_iff.mp hp
    refine ⟨Bool.not_eq_true _ ▸ fun hdry => ?_, p, hproduct, ?_, ?_⟩
    · rw [handed_of_dryRun b j hdry] at hhanded
      cases hhanded
    · rw [registry_commit_of_admitted b j faults hp, hregister]
    · rcases List.mem_cons.mp hmem with rfl | hmem
      · exact Or.inl rfl
      · rcases List.mem_append.mp hmem with hmem | hmem
        · rw [Option.mem_toList, Option.map_eq_some_iff] at hmem
          obtain ⟨test, htest, rfl⟩ := hmem
          exact Or.inr (Or.inl ⟨by simp [htest], rfl⟩)
        · exact Or.inr (Or.inr (hassets p hproduct e hmem))
  rejected h := by
    have hnone := admitted?_of_rejected h
    have hhanded : handed b j w x = [] := by rw [handed, hnone]
    refine ⟨?_, untouched_of_handed_nil b j faults hhanded⟩
    rw [outcome_settle b j faults w hx, verdict, hnone]
    split <;> rfl
  skipped h := untouched_of_handed_nil b j faults (handed_of_skipped b j faults hx h)
  migrated hreal h := by
    obtain ⟨hnone, p, hp, hcomplete⟩ := admitted_of_migrated b j faults hx h
    refine ⟨p, product_of_admitted? hp, fun hcoherent => ⟨fun e he => ?_, ?_⟩⟩
    · exact readText_commit b j faults hreal hcoherent hp hx (fun _ he' => he') hnone he
        (Or.inl he)
    · exact readBytes_commit b j faults hreal hcoherent hp hx hcomplete hnone

/-! ## Runs -/

/-- What the commits of some work, one after the other, pass to the writer. -/
def passed (w : World) : List Work → List (Path × String)
  | [] => []
  | x :: rest => passedBy b j faults w x ++ passed (commit b j faults w x) rest

theorem files_foldl_commit (works : List Work) (w : World) :
    (works.foldl (commit b j faults) w).files =
      (passed b j faults w works).foldl (Disk.send faults) w.files := by
  induction works generalizing w with
  | nil => rfl
  | cons x rest ih => rw [List.foldl_cons, ih, passed, List.foldl_append, files_commit_eq]

theorem exists_of_mem_passed {works : List Work} {w : World} {e : Path × String}
    (h : e ∈ passed b j faults w works) : ∃ before x after, works = before ++ x :: after ∧
      e ∈ passedBy b j faults (before.foldl (commit b j faults) w) x := by
  induction works generalizing w with
  | nil => cases h
  | cons x rest ih =>
    rcases List.mem_append.mp h with h | h
    · exact ⟨[], x, rest, rfl, h⟩
    · obtain ⟨before, y, after, hsplit, hmem⟩ := ih h
      exact ⟨x :: before, y, after, by rw [hsplit, List.cons_append], hmem⟩

end World

namespace Work

variable {b : Batch} {j : Job} {files : Disk} {source : String}

/-- The style files of a product are those that its plan has noted, in order, and it has a test if
tests are to be made. -/
theorem whole_process {p : Product} (h : (process b j files source).product = some p) :
    List.Forall₂ (fun asset e => b.assetPath asset = .ok e.1) p.plan.assets p.assets ∧
      p.test.isSome = j.generateTests := by
  obtain ⟨hnone, -⟩ | ⟨parsed, d, draft, text, assets, test, -, -, hassets, htest, hproduct⟩ :=
    process_cases b j files source
  · rw [hnone] at h
    cases h
  · obtain rfl := Option.some.inj (hproduct.symm.trans h)
    exact ⟨(forall₂_of_mapM hassets).imp fun asset e hcopy => (copy_cases hcopy).2, htest⟩

end Work

namespace Migration

/-- A run is known by the work that it commits: the disk in the end is the one at the start after
the calls of the writer for this work.  A run that is not called off commits all work. -/
theorem Ready.exists_worked {j : Job} {files : Disk} (g : Ready j files) (faults : Faults)
    (calledOff : Nat → World → Bool) :
    ∃ k ≤ g.found.length, ∃ works,
      Worked (g.schedule faults calledOff) g.opening (g.found.take k) works ∧
      (g.closing faults calledOff).files =
        (World.passed g.batch j faults g.opening works).foldl (Disk.send faults) files ∧
      ((∀ n w, calledOff n w = false) → k = g.found.length) := by
  obtain ⟨k, hk, works, hworks, hrun, hcalm⟩ :=
    run_commits_in_order (g.schedule faults calledOff) j.window_pos g.opening g.found
  refine ⟨k, hk, works, hworks, ?_, hcalm⟩
  have hclosing : (g.closing faults calledOff).files =
      (Schedule.run (g.schedule faults calledOff) j.window g.opening g.found).1.files := rfl
  rw [hclosing, hrun]
  exact World.files_foldl_commit g.batch j faults works g.opening

/-- The work on the only file is begun at the start. -/
theorem Ready.works_eq_of_single {j : Job} {files : Disk} (g : Ready j files) {faults : Faults}
    {calledOff : Nat → World → Bool} {k : Nat} {works : List Work} {source : String}
    (hfound : g.found = [source]) (hk : k = g.found.length)
    (hworks : Worked (g.schedule faults calledOff) g.opening (g.found.take k) works) :
    works = [Work.process g.batch j files source] := by
  rw [hk, List.take_length, hfound] at hworks
  have hfirst := hworks.head? (a := source) rfl
  obtain ⟨x, rfl⟩ := List.length_eq_one_iff.mp hworks.forall₂.length_eq.symm
  rw [List.head?_cons, Option.some.injEq] at hfirst
  rw [hfirst]
  rfl

/-- A run that is not called off commits the work on the only file. -/
theorem Ready.closing_of_single {j : Job} {files : Disk} (g : Ready j files) (faults : Faults)
    {calledOff : Nat → World → Bool} {source : String} (hfound : g.found = [source])
    (hcalm : ∀ n w, calledOff n w = false) :
    g.closing faults calledOff =
      World.commit g.batch j faults g.opening (Work.process g.batch j files source) := by
  obtain ⟨k, -, works, hworks, hrun, hall⟩ :=
    run_commits_in_order (g.schedule faults calledOff) j.window_pos g.opening g.found
  obtain rfl := g.works_eq_of_single hfound (hall hcalm) hworks
  rw [hall hcalm, List.drop_length] at hrun
  have hclosing : g.closing faults calledOff =
      let r := Schedule.run (g.schedule faults calledOff) j.window g.opening g.found
      { r.1 with report := (r.2.map notScheduled).foldl Report.merge r.1.report } := rfl
  rw [hclosing, hrun]
  rfl

/-- **Only what is committed is written.**  A migration that can begin works on a first part of the
files that it has found and commits this work in order, and the disk in the end is the one at the
start after the calls of the writer.  A run that is not called off works on all of them.

* A dry run does not call the writer.
* Every call is for the component, the test or a style file of a product that the registry has taken
  up.
* The commit of work that has failed, or that the registry refuses, does not call the writer and
  leaves the files alone, and so does that of a file that is skipped.
* When a file has been migrated, and not in a dry run, its component, its test if tests are to be
  made, and all style files that its plan has noted read as they were meant, and the component has
  the bytes of its text; provided that these texts have no returns and that no two of them that
  differ go to one place. -/
theorem only_committed_files_written {j : Job} {files : Disk} (g : Ready j files) (faults : Faults)
    (calledOff : Nat → World → Bool) :
    ∃ k ≤ g.found.length, ∃ works out,
      Worked (g.schedule faults calledOff) g.opening (g.found.take k) works ∧
      ((∀ n w, calledOff n w = false) → k = g.found.length) ∧
      run j faults calledOff files = .ok out ∧
      out.files = (World.passed g.batch j faults g.opening works).foldl (Disk.send faults) files ∧
      (j.dryRun = true →
        World.passed g.batch j faults g.opening works = [] ∧ out.files = files) ∧
      (∀ e ∈ World.passed g.batch j faults g.opening works, ∃ before x after,
        works = before ++ x :: after ∧ e ∈ World.passedBy g.batch j faults
          (before.foldl (World.commit g.batch j faults) g.opening) x) ∧
      ∀ before x after, works = before ++ x :: after →
        World.Confined g.batch j faults
          (before.foldl (World.commit g.batch j faults) g.opening) x ∧
        ∀ p, x.product = some p → p.test.isSome = j.generateTests ∧
          List.Forall₂ (fun asset e => g.batch.assetPath asset = .ok e.1)
            p.plan.assets p.assets := by
  obtain ⟨k, hk, works, hworks, hfiles, hcalm⟩ := g.exists_worked faults calledOff
  have hdry : j.dryRun = true → World.passed g.batch j faults g.opening works = [] := by
    intro hdry
    rw [List.eq_nil_iff_forall_not_mem]
    intro e he
    obtain ⟨before, x, after, -, hmem⟩ := World.exists_of_mem_passed g.batch j faults he
    have hhanded := World.mem_handed_of_mem_passedBy g.batch j faults hmem
    rw [World.handed_of_dryRun g.batch j hdry] at hhanded
    cases hhanded
  refine ⟨k, hk, works, _, hworks, hcalm, g.run_eq faults calledOff, hfiles,
    fun h => ⟨hdry h, ?_⟩, fun e he => World.exists_of_mem_passed g.batch j faults he, fun before x after hsplit => ?_⟩
  · rw [g.files_outcome, hfiles, hdry h, List.foldl_nil]
  · have hx : x ∈ works := hsplit ▸ List.mem_append_right before List.mem_cons_self
    obtain ⟨source, -, w, rfl⟩ := exists_mem_of_forall₂ hworks.forall₂ hx
    refine ⟨World.confined g.batch j faults (Work.proper_process g.batch j w.files source)
      fun p hp e he => ?_, fun p hp => (Work.whole_process hp).symm⟩
    exact exists_mem_of_forall₂ (Work.whole_process hp).1 he

/-! ## A component with a test and a style file -/

/-- A disk with a component that imports a style file, and an empty target project. -/
def styledFiles : Disk where
  top := .directory
    [("source", .directory
      [("A.jsx", .file (Utf8.encode (styled "A"))), ("a.css", .file (Utf8.encode "p{}"))]),
      ("target", .directory [])]

/-- A job that makes tests. -/
def tested : Job where
  sourceDir := ⟨"", ["source"]⟩
  targetDir := ⟨"", ["target"]⟩
  generateTests := true

/-- The job can begin. -/
def testedReady : Ready tested styledFiles where
  events := { file := "" }
  settings := tested.settings
  frameworkLog := _
  aliasLog := _
  roots := by rfl
  inside := Discovery.stray?_of_nil styledFiles rfl
  framework := by rfl
  aliases := by rfl

theorem found_tested : testedReady.found = ["A.jsx"] := by decide +kernel

/-- The work on the component. -/
def testedWork : Work := Work.process testedReady.batch tested styledFiles "A.jsx"

/-- Where the component, its test and its style file go. -/
def testedPaths : List Path :=
  [pairPlace "A.jsx", ⟨"", (pairPlace "__tests__").parts ++ ["A.test.jsx"]⟩, pairPlace "a.css"]

theorem testedWork_check :
    testedWork.product.any (fun p =>
      decide ((p.files testedReady.batch).map (·.1) = testedPaths) &&
      decide (∀ e ∈ p.files testedReady.batch, 13 ∉ e.2.toByteArray.data.toList)) = true ∧
    (World.passed testedReady.batch tested (fun _ => none) testedReady.opening
      [testedWork]).map (·.1) = testedPaths ∧
    (World.settle testedReady.batch tested (fun _ => none) testedReady.opening
      testedWork).2.outcome = some .migrated := by
  decide +kernel

/-- The component is migrated, and the writer has been called for it, its test and its style file.
All of them read as they were meant. -/
theorem tested_files_written :
    ∃ p out, testedWork.product = some p ∧
      run tested (fun _ => none) (fun _ _ => false) styledFiles = .ok out ∧
      (World.passed testedReady.batch tested (fun _ => none) testedReady.opening
        [testedWork]).map (·.1) = testedPaths ∧
      (p.files testedReady.batch).map (·.1) = testedPaths ∧
      (∀ e ∈ p.files testedReady.batch, out.files.readText e.1 = .ok e.2) ∧
      out.files.readBytes p.plan.targetPath = .ok (Utf8.encode p.text) := by
  obtain ⟨hcheck, hpassed, houtcome⟩ := testedWork_check
  obtain ⟨k, -, works, out, hworks, hcalm, hrun, hfiles, -, -, hcommits⟩ :=
    only_committed_files_written testedReady (fun _ => none) fun _ _ => false
  obtain rfl : works = [testedWork] :=
    testedReady.works_eq_of_single found_tested (hcalm fun _ _ => rfl) hworks
  have hconfined := (hcommits [] testedWork [] rfl).1
  rw [List.foldl_nil] at hconfined
  obtain ⟨p, hp, hthere⟩ := hconfined.migrated rfl houtcome
  rw [hp, Option.any_some, Bool.and_eq_true, decide_eq_true_eq, decide_eq_true_eq] at hcheck
  have hcoherent : styledFiles.Coherent (p.files testedReady.batch) := by
    refine Disk.coherent_of_nodup (fun e he => Text.return_notMem_of_bytes (hcheck.2 e he)) ?_
    rw [← Function.comp_def styledFiles.destination Prod.fst, ← List.map_map, hcheck.1]
    decide
  have hleft := World.files_foldl_commit testedReady.batch tested (fun _ => none) [testedWork]
    testedReady.opening
  rw [List.foldl_cons, List.foldl_nil] at hleft
  obtain ⟨htexts, hbytes⟩ := hthere hcoherent
  rw [hleft.trans hfiles.symm] at htexts hbytes
  exact ⟨p, out, hp, hrun, hpassed, hcheck.1, htexts, hbytes⟩

/-! ## Two paths and one place -/

/-- A job that gives the component a path that leads to where its style file goes. -/
def crossed : Job :=
  { lone with
    settings :=
      { header := false, pathOverrides := Table.ofPairs [("A.jsx", "x/../a.css")] } }

/-- The job can begin. -/
def crossedReady : Ready crossed styledFiles where
  events := { file := "" }
  settings := crossed.settings
  frameworkLog := _
  aliasLog := _
  roots := by rfl
  inside := Discovery.stray?_of_nil styledFiles rfl
  framework := by rfl
  aliases := by rfl

/-- The work on the component. -/
def crossedWork : Work := Work.process crossedReady.batch crossed styledFiles "A.jsx"

theorem crossedWork_check :
    crossedWork.product.any (fun p =>
      decide (((p.files crossedReady.batch).map (·.1)).Nodup) &&
      decide (∀ e ∈ p.files crossedReady.batch, 13 ∉ e.2.toByteArray.data.toList) &&
      !(World.commit crossedReady.batch crossed (fun _ => none) crossedReady.opening
        crossedWork).unchanged p.plan.targetPath p.text) = true ∧
    (World.settle crossedReady.batch crossed (fun _ => none) crossedReady.opening
      crossedWork).2.outcome = some .migrated := by
  decide +kernel

/-- **Distinct paths are not enough.**  The component and its style file go to distinct paths, the
texts have no returns, and the component is told as migrated; but the style file has taken its
place. -/
theorem own_style_in_the_way :
    crossedReady.found = ["A.jsx"] ∧ crossed.dryRun = false ∧
    (World.settle crossedReady.batch crossed (fun _ => none) crossedReady.opening
      crossedWork).2.outcome = some .migrated ∧
    ∃ p, crossedWork.product = some p ∧ ((p.files crossedReady.batch).map (·.1)).Nodup ∧
      (∀ e ∈ p.files crossedReady.batch, '\r' ∉ e.2.toList) ∧
      (World.commit crossedReady.batch crossed (fun _ => none) crossedReady.opening
        crossedWork).files.readText p.plan.targetPath ≠ .ok p.text := by
  obtain ⟨hcheck, houtcome⟩ := crossedWork_check
  obtain ⟨p, hp, hcheck⟩ := (Option.any_eq_true _ _).mp hcheck
  rw [Bool.and_eq_true, Bool.and_eq_true, decide_eq_true_eq, decide_eq_true_eq,
    Bool.not_eq_true', ← Bool.not_eq_true, World.unchanged_iff] at hcheck
  exact ⟨by decide +kernel, rfl, houtcome, p, hp, hcheck.1.1,
    fun e he => Text.return_notMem_of_bytes (hcheck.1.2 e he), hcheck.2⟩

end Migration
end Transplant
