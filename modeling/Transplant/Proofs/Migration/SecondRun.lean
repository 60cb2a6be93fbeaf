import Transplant.Proofs.Migration.Found
import Transplant.Proofs.Migration.Rehearsal
import Transplant.Proofs.Project.Metadata

/-!
# A second run finds nothing to do

After a run without failures every file that the batch was to leave behind is on the disk, and it
reads as the text that was meant.  This is an invariant of the commits: a file that has been
written, or was found there, may be written again by a later commit, but only with the same text.

A second run then does the same work, since it reads the same inputs and finds the same projects.
The registry admits it as before, and each product is complete, so nothing is written.

Two things have to be the same that writing files can change.  One is the set of component and style
files of the source project: `Migration.migrated_file_found_again` has a target inside the source,
where the second run finds the components that the first one has left.  The other is the place that
two paths name, which may be the same although they are spelled differently; hence it is places that
are compared here, and not paths.

* `World.readText_foldl_commit`: what commits leave behind reads as it was meant
* `World.commits_of_complete`: commits of complete products change nothing
* `Migration.second_run_writes_nothing`: the second run
-/

namespace Transplant

/-- Texts that can be on a disk together, each to be read as it was written: they have no returns,
and there is one text for each place. -/
structure Disk.Coherent (d : Disk) (l : List (Path × String)) : Prop where
  returns : ∀ e ∈ l, '\r' ∉ e.2.toList
  places : ∀ e ∈ l, ∀ e' ∈ l, d.destination e.1 = d.destination e'.1 → e.2 = e'.2

theorem Disk.Coherent.of_destination {d d' : Disk} {l : List (Path × String)} (h : d.Coherent l)
    (hd : ∀ p, d'.destination p = d.destination p) : d'.Coherent l := by
  refine ⟨h.returns, fun e he e' he' hplace => h.places e he e' he' ?_⟩
  rwa [hd, hd] at hplace

/-- Texts without returns for distinct places can be on a disk together. -/
theorem Disk.coherent_of_nodup {d : Disk} {l : List (Path × String)}
    (hreturns : ∀ e ∈ l, '\r' ∉ e.2.toList) (h : (l.map fun e => d.destination e.1).Nodup) :
    d.Coherent l := by
  refine ⟨hreturns, fun e he e' he' hplace => ?_⟩
  rw [List.inj_on_of_nodup_map h he he' hplace]

namespace World

variable (b : Batch) (j : Job) (faults : Faults)

/-! ## Runs without failures -/

/-- The products of some work, one after the other, are admitted by a registry. -/
def Admits (r : Registry) : List Work → Prop
  | [] => True
  | x :: rest => admitted? r x ≠ none ∧ Admits (enrol r x) rest

theorem Admits.of_append {before after : List Work} {r : Registry}
    (h : Admits r (before ++ after)) : Admits r before := by
  induction before generalizing r with
  | nil => trivial
  | cons x rest ih => exact ⟨h.1, ih h.2⟩

/-- If no outcome is a failure, no fault has been met and all work has been admitted. -/
theorem faultless_of_no_failure (works : List Work) (w : World) (hw : ∀ x ∈ works, x.Proper b)
    (h : ∀ f ∈ history b j faults w works, f.outcome ≠ some .failed) :
    Faultless b j faults w works ∧ Admits w.registry works := by
  induction works generalizing w with
  | nil => exact ⟨trivial, trivial⟩
  | cons x rest ih =>
    have hfirst := h _ List.mem_cons_self
    rw [outcome_settle b j faults w (hw x List.mem_cons_self)] at hfirst
    have hnone : (delivery b j faults w x).2 = none := by
      cases hfault : (delivery b j faults w x).2 with
      | none => rfl
      | some fault =>
        rw [hfault] at hfirst
        exact absurd rfl hfirst
    have hadmitted : admitted? w.registry x ≠ none := by
      intro hrefused
      rw [hnone, verdict, hrefused] at hfirst
      exact hfirst rfl
    obtain ⟨hrest, hadmits⟩ := ih (commit b j faults w x)
      (fun y hy => hw y (List.mem_cons_of_mem _ hy)) fun f hf => h f (List.mem_cons_of_mem _ hf)
    rw [registry_commit] at hadmits
    exact ⟨⟨hnone, hrest⟩, hadmitted, hadmits⟩

/-! ## What commits leave behind -/

/-- What holds of a file when it has been written, and holds still when files are written that agree
with it about their places, holds after the writer has been at work, of all files that it has written
and all of which it has held before. -/
theorem writeAll_leaves {meant : List (Path × String)} {Q : Disk → Path × String → Prop}
    (hwritten : ∀ d : Disk, ∀ e ∈ meant, e.1 ≠ Path.here → (d.write e.1 e.2).2 = .ok () →
      Q (d.write e.1 e.2).1 e)
    (hkept : ∀ d : Disk, ∀ e ∈ meant, ∀ e' ∈ meant, e'.1 ≠ Path.here →
      (d.write e'.1 e'.2).2 = .ok () → (d.destination e'.1 = d.destination e.1 → e'.2 = e.2) →
      Q d e → Q (d.write e'.1 e'.2).1 e)
    (l : List (Path × String)) (w : World) (hmeant : w.files.Coherent meant)
    (hl : ∀ e ∈ l, e ∈ meant ∧ e.1 ≠ Path.here) (hnone : (w.writeAll faults l).2 = none)
    {e : Path × String} (he : e ∈ meant) (h : e ∈ l ∨ Q w.files e) :
    Q (w.writeAll faults l).1.files e := by
  induction l generalizing w with
  | nil => exact h.resolve_left List.not_mem_nil
  | cons first rest ih =>
    obtain ⟨hfirst, hplaced⟩ := hl first List.mem_cons_self
    obtain ⟨w', hfiles, hok, hwriteAll⟩ := writeAll_of_none faults hnone
    rw [hwriteAll] at hnone ⊢
    have hcoherent : w'.files.Coherent meant := by
      rw [hfiles]
      exact hmeant.of_destination (Disk.write_cases hplaced first.2).1.destination
    refine ih w' hcoherent (fun e' he' => hl e' (List.mem_cons_of_mem _ he')) hnone ?_
    rw [hfiles]
    rcases h with hmem | hthere
    · rcases List.mem_cons.mp hmem with rfl | hmem
      · exact Or.inr (hwritten w.files e he hplaced hok)
      · exact Or.inl hmem
    · exact Or.inr (hkept w.files e he first hfirst hplaced hok
        (hmeant.places first hfirst e he) hthere)

/-- Among texts that can be on a disk together, those that the writer writes and those that were
there read as they were meant. -/
theorem readText_writeAll {meant : List (Path × String)} (l : List (Path × String)) (w : World)
    (hmeant : w.files.Coherent meant) (hl : ∀ e ∈ l, e ∈ meant ∧ e.1 ≠ Path.here)
    (hnone : (w.writeAll faults l).2 = none) {e : Path × String} (he : e ∈ meant)
    (h : e ∈ l ∨ w.files.readText e.1 = .ok e.2) :
    (w.writeAll faults l).1.files.readText e.1 = .ok e.2 := by
  refine writeAll_leaves faults (Q := fun d e => d.readText e.1 = .ok e.2) ?_ ?_ l w hmeant hl
    hnone he h
  · intro d e he hplaced hok
    rw [Disk.readText_of_encode ((Disk.write_cases hplaced e.2).2 hok),
      Text.unified_of_notMem (hmeant.returns e he)]
  · intro d e he e' he' hplaced hok hsame hthere
    exact Disk.readText_write hthere (hmeant.returns e he) hplaced hok hsame

theorem readText_commit {meant : List (Path × String)} {w : World} {x : Work} {p : Product}
    (hreal : j.dryRun = false) (hmeant : w.files.Coherent meant)
    (hp : admitted? w.registry x = some p) (hx : x.Proper b) (hfiles : ∀ e ∈ p.files b, e ∈ meant)
    (hnone : (delivery b j faults w x).2 = none) {e : Path × String} (he : e ∈ meant)
    (h : e ∈ p.files b ∨ w.files.readText e.1 = .ok e.2) :
    (commit b j faults w x).files.readText e.1 = .ok e.2 := by
  rw [files_commit]
  refine readText_writeAll faults (handed b j w x) { w with registry := enrol w.registry x } hmeant
    (fun e' he' => ?_) hnone he ?_
  · obtain ⟨p', hp', hmem⟩ := exists_of_mem_handed b j he'
    obtain rfl := Option.some.inj (hp.symm.trans hp')
    exact ⟨hfiles e' hmem, hx.placed p (product_of_admitted? hp) e' hmem⟩
  · rcases h with hmem | hthere
    · -- what is not handed to the writer is there already
      by_cases hthere : w.files.readText e.1 = .ok e.2
      · exact Or.inr hthere
      · refine Or.inl ?_
        have hcomplete : complete b w p = false := by
          rw [← Bool.not_eq_true, complete_iff]
          exact fun hall => hthere (hall e hmem)
        rw [handed_of_admitted b j hp, hreal, hcomplete]
        rcases List.mem_cons.mp hmem with rfl | hmem
        · exact List.mem_cons_self
        · refine List.mem_cons_of_mem _ (List.mem_filter.mpr ⟨hmem, ?_⟩)
          rw [Bool.not_eq_true', ← Bool.not_eq_true, unchanged_iff]
          exact hthere
    · exact Or.inr hthere

/-- **What commits leave behind reads as it was meant.** -/
theorem readText_foldl_commit {meant : List (Path × String)} (hreal : j.dryRun = false)
    (works : List Work) (w : World) (hmeant : w.files.Coherent meant)
    (hw : ∀ x ∈ works, x.Proper b)
    (hfiles : ∀ x ∈ works, ∀ p, x.product = some p → ∀ e ∈ p.files b, e ∈ meant)
    (hnone : Faultless b j faults w works) (hadmits : Admits w.registry works)
    {e : Path × String} (he : e ∈ meant)
    (h : (∃ x ∈ works, ∃ p, x.product = some p ∧ e ∈ p.files b) ∨
      w.files.readText e.1 = .ok e.2) :
    (works.foldl (commit b j faults) w).files.readText e.1 = .ok e.2 := by
  induction works generalizing w with
  | nil => exact h.resolve_left (by simp)
  | cons x rest ih =>
    have hx := hw x List.mem_cons_self
    obtain ⟨p, hp⟩ := Option.ne_none_iff_exists'.mp hadmits.1
    have hproduct := product_of_admitted? hp
    have hcommit : e ∈ p.files b ∨ w.files.readText e.1 = .ok e.2 →
        (commit b j faults w x).files.readText e.1 = .ok e.2 :=
      readText_commit b j faults hreal hmeant hp hx
        (hfiles x List.mem_cons_self p hproduct) hnone.1 he
    have hgrows := grows_commit b j faults w hx
    refine ih (commit b j faults w x) (hmeant.of_destination hgrows.destination)
      (fun y hy => hw y (List.mem_cons_of_mem _ hy))
      (fun y hy => hfiles y (List.mem_cons_of_mem _ hy)) hnone.2
      (registry_commit b j faults w x ▸ hadmits.2) ?_
    rcases h with ⟨y, hy, q, hq, hmem⟩ | hthere
    · rcases List.mem_cons.mp hy with rfl | hy
      · obtain rfl := Option.some.inj (hproduct.symm.trans hq)
        exact Or.inr (hcommit (Or.inl hmem))
      · exact Or.inl ⟨y, hy, q, hq, hmem⟩
    · exact Or.inr (hcommit (Or.inr hthere))

/-! ## Complete products -/

theorem delivery_of_complete {w : World} {x : Work} {p : Product}
    (hp : admitted? w.registry x = some p) (hcomplete : complete b w p = true) :
    delivery b j faults w x = ({ w with registry := enrol w.registry x }, none) := by
  have hhanded : handed b j w x = [] := by
    rw [handed_of_admitted b j hp, hcomplete, Bool.or_true, if_pos rfl]
  rw [delivery, hhanded, writeAll]

/-- **Commits of complete products change no file, write nothing, and skip everything.** -/
theorem commits_of_complete (works : List Work) (w : World) (hw : ∀ x ∈ works, x.Proper b)
    (hadmits : Admits w.registry works)
    (hcomplete : ∀ x ∈ works, ∀ p, x.product = some p → complete b w p = true) :
    (works.foldl (commit b j faults) w).files = w.files ∧
      (works.foldl (commit b j faults) w).written = w.written ∧
      ∀ f ∈ history b j faults w works, f.outcome = some .skipped := by
  induction works generalizing w with
  | nil => exact ⟨rfl, rfl, fun f hf => nomatch hf⟩
  | cons x rest ih =>
    obtain ⟨p, hp⟩ := Option.ne_none_iff_exists'.mp hadmits.1
    have hfirst := hcomplete x List.mem_cons_self p (product_of_admitted? hp)
    have hdelivery := delivery_of_complete b j faults hp hfirst
    have hfiles : (commit b j faults w x).files = w.files := by
      rw [files_commit, hdelivery]
    have hwritten : (commit b j faults w x).written = w.written := by
      show (settle b j faults w x).1.written = w.written
      rw [settle_fst, hdelivery]
    have houtcome : (settle b j faults w x).2.outcome = some .skipped := by
      rw [outcome_settle b j faults w (hw x List.mem_cons_self), hdelivery, verdict, hp]
      exact congrArg some (if_pos hfirst)
    obtain ⟨hfiles', hwritten', hall⟩ := ih (commit b j faults w x)
      (fun y hy => hw y (List.mem_cons_of_mem _ hy))
      (registry_commit b j faults w x ▸ hadmits.2)
      (fun y hy q hq => by
        rw [complete_congr b hfiles]
        exact hcomplete y (List.mem_cons_of_mem _ hy) q hq)
    refine ⟨hfiles'.trans hfiles, hwritten'.trans hwritten, fun f hf => ?_⟩
    rcases List.mem_cons.mp hf with rfl | hf
    · exact houtcome
    · exact hall f hf

end World

namespace Migration

open Schedule

/-! ## The projects, looked at again -/

theorem outcome_warnings (f : FileEvents) (messages : List String) :
    (f.warnings messages).outcome = f.outcome := by
  unfold FileEvents.warnings
  induction messages generalizing f with
  | nil => rfl
  | cons m rest ih => exact ih (f.warning m)

variable {j : Job} {files after : Disk} {S : List String → Prop}

theorem outcome_frameworkCheck {events : FileEvents} {log : List LogLine}
    (h : frameworkCheck j files = .ok (events, log)) : events.outcome = none := by
  obtain ⟨⟨source, sourceLog⟩, -, h⟩ := exists_of_bind h
  obtain ⟨⟨target, targetLog⟩, -, h⟩ := exists_of_bind h
  obtain ⟨rfl, -⟩ := Prod.mk.inj (Except.ok.inj h)
  rw [outcome_warnings]

theorem settings_of_grows (hgrows : files.Grows S after)
    (hsource : files.isDirectoryAt j.sourceDir = true)
    (htarget : files.isDirectoryAt j.targetDir = true)
    (hS : ∀ p ∈ Project.metadata j.sourceDir ++ Project.metadata j.targetDir,
      ¬ S (files.destination p)) {s : Settings} {log : List LogLine}
    (h : settings j files = .ok (s, log)) : ∃ log', settings j after = .ok (s, log') := by
  obtain ⟨⟨source, sourceLog⟩, hsourceAliases, h⟩ := exists_of_bind h
  obtain ⟨⟨target, targetLog⟩, htargetAliases, h⟩ := exists_of_bind h
  obtain ⟨sourceLog', hsource'⟩ := Project.aliases_of_grows hgrows hsource
    (fun p hp => hS p (List.mem_append_left _ hp)) (ok_of_mapError hsourceAliases)
  obtain ⟨targetLog', htarget'⟩ := Project.aliases_of_grows hgrows htarget
    (fun p hp => hS p (List.mem_append_right _ hp)) (ok_of_mapError htargetAliases)
  unfold settings
  rw [hsource', htarget']
  dsimp only [Except.mapError, bind, Except.bind] at h ⊢
  split at h
  · rename_i hempty
    obtain ⟨rfl, -⟩ := Prod.mk.inj (Except.ok.inj h)
    exact ⟨_, if_pos hempty⟩
  · rename_i hempty
    obtain ⟨rfl, -⟩ := Prod.mk.inj (Except.ok.inj h)
    exact ⟨_, if_neg hempty⟩

theorem frameworkCheck_of_grows (hgrows : files.Grows S after)
    (hsource : files.isDirectoryAt j.sourceDir = true)
    (htarget : files.isDirectoryAt j.targetDir = true)
    (hS : ∀ p ∈ Project.metadata j.sourceDir ++ Project.metadata j.targetDir,
      ¬ S (files.destination p)) {events : FileEvents} {log : List LogLine}
    (h : frameworkCheck j files = .ok (events, log)) :
    ∃ log', frameworkCheck j after = .ok (events, log') := by
  obtain ⟨⟨source, sourceLog⟩, hsourceFramework, h⟩ := exists_of_bind h
  obtain ⟨⟨target, targetLog⟩, htargetFramework, h⟩ := exists_of_bind h
  obtain ⟨sourceLog', hsource'⟩ := Project.framework_of_grows hgrows hsource
    (fun p hp => hS p (List.mem_append_left _ hp)) (ok_of_mapError hsourceFramework)
  obtain ⟨targetLog', htarget'⟩ := Project.framework_of_grows hgrows htarget
    (fun p hp => hS p (List.mem_append_right _ hp)) (ok_of_mapError htargetFramework)
  obtain ⟨rfl, -⟩ := Prod.mk.inj (Except.ok.inj h)
  unfold frameworkCheck
  rw [hsource', htarget']
  exact ⟨_, rfl⟩

namespace Ready

variable (g : Ready j files)

/-- The files in which the two projects say something about themselves are not written. -/
def MetadataKept (faults : Faults) : Prop :=
  ∀ p ∈ Project.metadata j.sourceDir ++ Project.metadata j.targetDir, ∀ e ∈ g.sent faults,
    files.destination e.1 ≠ files.destination p

/-- The migration can begin again on a disk to which it has written. -/
theorem exists_again {faults : Faults} (hinside : Discovery.stray? after j = none)
    (hmetadata : g.MetadataKept faults)
    (hgrows : files.Grows (fun place => ∃ e ∈ g.sent faults, files.destination e.1 = place) after) :
    ∃ g' : Ready j after, g'.events = g.events ∧ g'.settings = g.settings := by
  obtain ⟨hsource, htarget⟩ := checkRoots_iff.mp g.roots
  have hS : ∀ p ∈ Project.metadata j.sourceDir ++ Project.metadata j.targetDir,
      ¬ ∃ e ∈ g.sent faults, files.destination e.1 = files.destination p := by
    rintro p hp ⟨e, he, hplace⟩
    exact hmetadata p hp e he hplace
  obtain ⟨aliasLog, haliases⟩ := settings_of_grows hgrows hsource htarget hS g.aliases
  obtain ⟨frameworkLog, hframework⟩ :=
    frameworkCheck_of_grows hgrows hsource htarget hS g.framework
  have hroots := checkRoots_iff.mpr ⟨hgrows.isDirectoryAt hsource, hgrows.isDirectoryAt htarget⟩
  exact ⟨⟨g.events, g.settings, frameworkLog, aliasLog, hroots, hinside, hframework, haliases⟩,
    rfl, rfl⟩

/-- A report counts what is told of the files, and nothing for the check of the frameworks. -/
theorem tally_report (told : List FileEvents) (o : Transplant.Outcome) :
    ((g.events :: told).foldl Report.merge {}).tally o =
      (told.map (·.outcome)).count (some o) := by
  have hnothing : ({} : Report).tally o = 0 := by cases o <;> rfl
  rw [Report.tally_foldl_merge, hnothing, Nat.zero_add, List.map_cons,
    outcome_frameworkCheck g.framework, List.count_cons_of_ne (by simp)]

/-- A run without a failed file has met no fault, and the registry has admitted everything. -/
theorem faultless_of_failed (faults : Faults)
    (h : (g.committed faults g.found.length).report.failed = 0) :
    World.Faultless g.batch j faults g.opening g.all ∧ World.Admits Registry.empty g.all := by
  have hcount := g.tally_report (g.told faults g.found.length) .failed
  rw [← g.report_committed, Report.tally, h, eq_comm, List.count_eq_zero] at hcount
  refine World.faultless_of_no_failure g.batch j faults g.all g.opening
    (fun x hx => g.proper_of_mem_all hx) fun f hf hbad => ?_
  refine hcount (List.mem_map.mpr ⟨f, ?_, hbad⟩)
  rwa [told, g.works_length]

/-- A second run that finds the same files does the same work. -/
theorem exists_same_work {faults : Faults} (hinputs : g.InputsKept faults)
    (hmetadata : g.MetadataKept faults) (hafter : after = (g.committed faults g.found.length).files)
    (hfound : ∃ log, Discovery.discover after j = .ok (g.found, log))
    (hstyles : Discovery.styles after j = Discovery.styles files j) :
    ∃ again : Ready j after, again.events = g.events ∧ again.found = g.found ∧ again.all = g.all ∧
      again.outputs = g.outputs := by
  obtain ⟨log, hfound⟩ := hfound
  obtain ⟨hinside, hcomponents⟩ := Discovery.stray?_of_discover hfound
  obtain ⟨again, hevents, hsettings⟩ :=
    g.exists_again hinside hmetadata (hafter ▸ g.grows_committed faults)
  have hsame : again.found = g.found := (congrArg Prod.fst hcomponents).symm
  have hbatch : again.batch = g.batch := by
    unfold batch batchOf
    rw [hsettings, hstyles, hsame]
  have hall : again.all = g.all := by
    unfold all
    rw [hbatch, hsame, hafter]
    exact List.map_congr_left fun source hsource => hinputs.process_eq g hsource _
  refine ⟨again, hevents, hsame, hall, ?_⟩
  unfold outputs
  rw [hall, hbatch]

/-- The disk after a run without failures has everything that was to be left behind. -/
theorem readText_committed {faults : Faults} (hreal : j.dryRun = false)
    (hcoherent : files.Coherent g.outputs)
    (hnone : World.Faultless g.batch j faults g.opening g.all)
    (hadmits : World.Admits Registry.empty g.all) {e : Path × String} (he : e ∈ g.outputs) :
    (g.committed faults g.found.length).files.readText e.1 = .ok e.2 := by
  rw [committed, g.works_length]
  exact World.readText_foldl_commit g.batch j faults hreal g.all g.opening hcoherent
    (fun x hx => g.proper_of_mem_all hx)
    (fun x hx p hp e' he' => g.mem_outputs.mpr ⟨x, hx, p, hp, he'⟩) hnone hadmits he
    (Or.inl (g.mem_outputs.mp he))

/-- A migration whose products are all admitted and complete changes nothing and skips all files,
wherever it is called off. -/
theorem closing_of_complete (hadmits : World.Admits Registry.empty g.all)
    (hcomplete : ∀ e ∈ g.outputs, files.readText e.1 = .ok e.2) (faults : Faults)
    (calledOff : Nat → World → Bool) :
    ∃ told : List FileEvents,
      (g.closing faults calledOff).files = files ∧ (g.closing faults calledOff).written = 0 ∧
      (g.closing faults calledOff).report = (g.events :: told).foldl Report.merge {} ∧
      told.map (·.file) = g.found ∧ ∀ f ∈ told, f.outcome = some .skipped := by
  have hcommits : ∀ k, _ := fun k =>
    World.commits_of_complete g.batch j faults (g.works k) g.opening
      (fun x hx => g.proper_of_mem_all (g.mem_all_of_mem_works hx))
      (g.all_eq_works_append k ▸ hadmits).of_append
      fun x hx p hp => (World.complete_iff g.batch).mpr fun e he =>
        hcomplete e (g.mem_outputs.mpr ⟨x, g.mem_all_of_mem_works hx, p, hp, he⟩)
  have hsteady : Steady (g.schedule faults calledOff) g.opening g.found := by
    refine g.steady_of_process_eq calledOff fun k a _ => ?_
    rw [show (g.committed faults k).files = files from (hcommits k).1]
  obtain ⟨k, -, hclosing, -⟩ := g.closing_eq faults calledOff hsteady
  obtain ⟨hfiles, hwritten, hskipped⟩ := hcommits k
  refine ⟨g.told faults k ++ (g.found.drop k).map notScheduled, ?_, ?_, ?_, ?_, fun f hf => ?_⟩
  · rw [hclosing]
    exact hfiles
  · rw [hclosing]
    exact hwritten
  · rw [hclosing, ← List.cons_append, List.foldl_append, ← g.report_committed]
  · rw [List.map_append, g.map_file_told, List.map_map]
    exact (congrArg _ (List.map_id' _)).trans (List.take_append_drop k g.found)
  · rcases List.mem_append.mp hf with hf | hf
    · exact hskipped f hf
    · obtain ⟨source, -, rfl⟩ := List.mem_map.mp hf
      rfl

end Ready

/-- **A second run finds nothing to do.**  Let a run that is no dry run and is not called off end
without a failed file.  Let the texts that it is to leave behind have no returns, with one text for
each place; let it write none of the files that it reads, nor those in which the projects say
something about themselves; and let the same component and style files be found in the source
project afterwards.  Then a run over the disk that it leaves, whatever may go wrong or call it off, skips
every file, writes nothing, and changes nothing. -/
theorem second_run_writes_nothing {j : Job} {files : Disk} (g : Ready j files)
    (hreal : j.dryRun = false) {faults : Faults} {calledOff : Nat → World → Bool}
    (hcalm : ∀ n w, calledOff n w = false) {out : Migration.Outcome}
    (hrun : run j faults calledOff files = .ok out) (hfailed : out.report.failed = 0)
    (hcoherent : files.Coherent g.outputs) (hinputs : g.InputsKept faults)
    (hmetadata : g.MetadataKept faults)
    (hfound : ∃ log, Discovery.discover out.files j = .ok (g.found, log))
    (hstyles : Discovery.styles out.files j = Discovery.styles files j)
    (faults' : Faults) (calledOff' : Nat → World → Bool) :
    ∃ (again : Ready j out.files) (w : World) (told : List FileEvents),
      run j faults' calledOff' out.files = .ok (again.outcome w) ∧
      w.files = out.files ∧ w.written = 0 ∧
      w.report = (g.events :: told).foldl Report.merge {} ∧
      told.map (·.file) = g.found ∧ (∀ f ∈ told, f.outcome = some .skipped) ∧
      w.report.migrated = 0 ∧ w.report.failed = 0 ∧ w.report.skipped = g.found.length := by
  have hclosing := hinputs.closing_eq g hcalm
  obtain rfl : g.outcome (g.closing faults calledOff) = out :=
    Except.ok.inj ((g.run_eq faults calledOff).symm.trans hrun)
  obtain ⟨hnone, hadmits⟩ := g.faultless_of_failed faults (hclosing ▸ hfailed)
  have hafter : (g.outcome (g.closing faults calledOff)).files =
      (g.committed faults g.found.length).files := by
    rw [Ready.files_outcome, hclosing]
  obtain ⟨again, hevents, hsame, hall, houtputs⟩ :=
    g.exists_same_work hinputs hmetadata hafter hfound hstyles
  have hcomplete : ∀ e ∈ again.outputs,
      (g.outcome (g.closing faults calledOff)).files.readText e.1 = .ok e.2 := by
    intro e he
    rw [hafter]
    exact g.readText_committed hreal hcoherent hnone hadmits (houtputs ▸ he)
  have hadmits' : World.Admits Registry.empty again.all := by
    rw [hall]
    exact hadmits
  obtain ⟨told, hfiles, hwritten, hreport, htold, hskipped⟩ :=
    again.closing_of_complete hadmits' hcomplete faults' calledOff'
  have htold : told.map (·.file) = g.found := htold.trans hsame
  have hlength : told.length = g.found.length := by rw [← htold, List.length_map]
  have houtcomes : told.map (·.outcome) = List.replicate g.found.length (some .skipped) := by
    refine List.eq_replicate_iff.mpr ⟨by rw [List.length_map, hlength], fun o ho => ?_⟩
    obtain ⟨f, hf, rfl⟩ := List.mem_map.mp ho
    exact hskipped f hf
  have htally : ∀ o, (again.closing faults' calledOff').report.tally o =
      (List.replicate g.found.length (some Transplant.Outcome.skipped)).count (some o) := by
    intro o
    rw [hreport, again.tally_report, houtcomes]
  refine ⟨again, again.closing faults' calledOff', told, again.run_eq faults' calledOff', hfiles,
    hwritten, hevents ▸ hreport, htold, hskipped, ?_, ?_, ?_⟩
  · exact (htally .migrated).trans (List.count_replicate ..)
  · exact (htally .failed).trans (List.count_replicate ..)
  · exact (htally .skipped).trans (List.count_replicate_self ..)

/-- What comes out of the first run over the two components. -/
def pairOutcome : Migration.Outcome := pairReady.outcome pairClosing

/-- The target is not in the source project, so the run changes nothing of what is found there. -/
theorem same_files_pair :
    (∃ log, Discovery.discover pairOutcome.files lone = .ok (pairReady.found, log)) ∧
      Discovery.styles pairOutcome.files lone = Discovery.styles pairFiles lone := by
  rw [pairOutcome, Ready.files_outcome, ← closing_pair,
    inputsKept_pair.closing_eq pairReady fun _ _ => rfl]
  refine pairReady.same_files_of_avoids (fun dir hdir => absurd hdir List.not_mem_nil) ?_
  have hdown : ∀ e ∈ [pairComponent "A", pairStyle, pairComponent "B"],
      ".." ∉ e.1.parts ∧ ¬ ["source"] <+: pairFiles.destination e.1 := by decide
  rw [sent_pair]
  exact fun e he => Disk.avoids_of_notMem (hdown e he).1 (hdown e he).2

/-- A second run over the two components skips both. -/
theorem shared_style_skipped_again :
    ∃ out : Migration.Outcome, run lone (fun _ => none) (fun _ _ => false) pairFiles = .ok out ∧
      out.report.migrated = 2 ∧
      ∃ (again : Ready lone out.files) (w : World),
        run lone (fun _ => none) (fun _ _ => false) out.files = .ok (again.outcome w) ∧
        w.files = out.files ∧ w.written = 0 ∧ w.report.skipped = 2 := by
  have hcoherent : pairFiles.Coherent pairReady.outputs := by
    rw [outputs_pair]
    exact ⟨by decide, by decide⟩
  have hmetadata : pairReady.MetadataKept fun _ => none := by
    unfold Ready.MetadataKept
    rw [sent_pair]
    decide
  have hrun : run lone (fun _ => none) (fun _ _ => false) pairFiles = .ok pairOutcome := by
    rw [pairReady.run_eq, closing_pair, pairOutcome]
  have hcounts : pairOutcome.report.migrated = 2 ∧ pairOutcome.report.failed = 0 := by
    rw [pairOutcome, Ready.report_outcome]
    exact pair_check.2.2.2.2
  obtain ⟨hfound, hstyles⟩ := same_files_pair
  obtain ⟨again, w, told, hagain, hfiles, hwritten, -, -, -, -, -, hskipped⟩ :=
    second_run_writes_nothing pairReady rfl (fun _ _ => rfl) hrun hcounts.2 hcoherent
      inputsKept_pair hmetadata hfound hstyles (fun _ => none) fun _ _ => false
  rw [found_pair] at hskipped
  exact ⟨_, hrun, hcounts.1, again, w, hagain, hfiles, hwritten, hskipped⟩

/-! ## A target inside the source -/

/-- A run over a project that is its own target. -/
def inside : Job where
  sourceDir := ⟨"", ["source"]⟩
  targetDir := ⟨"", ["source"]⟩
  settings := { header := false }

/-- The project with one component. -/
def insideFiles : Disk where
  top := .directory [("source", .directory [("A.jsx", .file (Utf8.encode (bare "A")))])]

/-- The run can begin. -/
def insideReady : Ready inside insideFiles where
  events := { file := "" }
  settings := inside.settings
  frameworkLog := _
  aliasLog := _
  roots := by rfl
  inside := Discovery.stray?_of_nil insideFiles rfl
  framework := by rfl
  aliases := by rfl

/-- What comes out of the first run. -/
def insideOutcome : Migration.Outcome :=
  insideReady.outcome (insideReady.closing (fun _ => none) fun _ _ => false)

/-- The files that the second run finds. -/
def insideFound : List String := ["A.jsx", "src/components_migrated_from_source/A.jsx"]

/-- The world after the second run over these files. -/
def insideWorld : World :=
  processAll (batchOf inside inside.settings insideOutcome.files insideFound) inside
    (fun _ => none) (fun _ _ => false) { files := insideOutcome.files } insideFound

/-- Where the component goes. -/
def insideTarget : Path := ⟨"", ["source", "src", "components_migrated_from_source", "A.jsx"]⟩

theorem work_inside :
    insideReady.found = ["A.jsx"] ∧
      Work.inputs insideReady.batch inside insideFiles "A.jsx" = [⟨"", ["source", "A.jsx"]⟩] ∧
      insideReady.outputs = [(insideTarget, bare "A")] ∧
      insideReady.sent (fun _ => none) = [(insideTarget, bare "A")] ∧
      insideOutcome.report.failed = 0 ∧
      (Discovery.search? insideOutcome.files inside Discovery.isComponent "").getD [] =
        insideFound ∧
      insideWorld.report.failed = 1 := by
  decide +kernel

theorem sort_in_order {a b : String} (h : Text.notAfter a b = true) :
    Text.sort [a, b] = [a, b] := by
  simp [Text.sort, List.mergeSort, h]

theorem found_insideOutcome :
    (Discovery.components insideOutcome.files inside).1 = insideFound := by
  rw [Discovery.components_of_nil insideOutcome.files rfl, work_inside.2.2.2.2.2.1]
  exact sort_in_order (by decide)

/-- **A second run can find something to do.**  The component that the first run has migrated is in
the source project, and the second run finds it there; its name is taken. -/
theorem migrated_file_found_again :
    insideFiles.Coherent insideReady.outputs ∧ (insideReady.InputsKept fun _ => none) ∧
      (insideReady.MetadataKept fun _ => none) ∧
      ∃ first second : Migration.Outcome,
        run inside (fun _ => none) (fun _ _ => false) insideFiles = .ok first ∧
        first.report.failed = 0 ∧
        run inside (fun _ => none) (fun _ _ => false) first.files = .ok second ∧
        second.report.failed = 1 := by
  obtain ⟨hfound, hinputs, houtputs, hsent, hfailed, -, hworld⟩ := work_inside
  have hcoherent : insideFiles.Coherent insideReady.outputs := by
    rw [houtputs]
    refine ⟨fun e he => ?_, fun e he e' he' _ => ?_⟩
    · rw [List.mem_singleton.mp he]
      decide
    · rw [List.mem_singleton.mp he, List.mem_singleton.mp he']
  have hkept : insideReady.InputsKept fun _ => none := by
    refine insideReady.inputsKept_of_single hfound hinputs rfl ?_
    rw [hsent]
    decide
  have hmetadata : insideReady.MetadataKept fun _ => none := by
    unfold Ready.MetadataKept
    rw [hsent]
    decide
  have hafter : insideOutcome.files =
      (insideReady.committed (fun _ => none) insideReady.found.length).files := by
    rw [insideOutcome, Ready.files_outcome, hkept.closing_eq insideReady fun _ _ => rfl]
  obtain ⟨again, hevents, hsettings⟩ :=
    insideReady.exists_again (Discovery.stray?_of_nil insideOutcome.files rfl) hmetadata
      (hafter ▸ insideReady.grows_committed _)
  have hagain : again.closing (fun _ => none) (fun _ _ => false) = insideWorld := by
    unfold Ready.closing Ready.batch Ready.opening insideWorld
    rw [hevents, hsettings, show again.found = insideFound from found_insideOutcome]
    rfl
  have hrun : run inside (fun _ => none) (fun _ _ => false) insideFiles = .ok insideOutcome :=
    insideReady.run_eq _ _
  refine ⟨hcoherent, hkept, hmetadata, insideOutcome, _, hrun, hfailed, again.run_eq _ _, ?_⟩
  rw [Ready.report_outcome, hagain]
  exact hworld

end Migration
end Transplant
