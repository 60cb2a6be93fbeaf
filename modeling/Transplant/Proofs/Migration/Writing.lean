import Transplant.Proofs.Files.Written
import Transplant.Proofs.Migration.Product
import Transplant.Proofs.Migration.Sequential

/-!
# What commits write

A commit hands some files to the writer (`World.handed`): none if the work has failed, if the
registry refuses it, if the run is a dry one, or if everything is there already.  `settle` is then
described by three things that know nothing of each other.

* The registry takes up a product that it does not refuse, whether or not anything is written
  (`World.enrol`).
* The files are those that the writer leaves (`World.delivery`).
* The outcome is the verdict on the work in that world (`World.verdict`), unless the writer has met
  a fault.

Along a run the files written are `World.sent`, and the disk afterwards is the one at the start with
these written to it (`World.written_foldl_commit`).
-/

namespace Transplant

namespace Work

/-- What holds of all work that a file comes to: work without a product is told as failed, and every
file of a product has a place of its own. -/
structure Proper (b : Batch) (x : Work) : Prop where
  failed : x.product = none → x.events.outcome = some .failed
  placed : ∀ p, x.product = some p → ∀ e ∈ p.files b, e.1 ≠ Path.here

theorem proper_process (b : Batch) (j : Job) (files : Disk) (source : String) :
    (process b j files source).Proper b where
  failed h := by
    obtain ⟨-, houtcome⟩ | ⟨_, _, _, _, _, _, -, -, -, -, hproduct⟩ :=
      process_cases b j files source
    · exact houtcome
    · rw [h] at hproduct
      cases hproduct
  placed p hp e he := ne_here_of_mem_files hp he

end Work

namespace World

variable (b : Batch) (j : Job) (faults : Faults)

/-! ## Products and registries -/

theorem unchanged_iff {w : World} {path : Path} {text : String} :
    w.unchanged path text = true ↔ w.files.readText path = .ok text := by
  unfold unchanged
  cases w.files.readText path with
  | error e => exact ⟨nofun, nofun⟩
  | ok present => rw [beq_iff_eq, Except.ok.injEq]

/-- Whether all files of a product are there already. -/
def complete (w : World) (p : Product) : Bool :=
  w.unchanged p.plan.targetPath p.text && (pending b w p).isEmpty

theorem complete_iff {w : World} {p : Product} :
    complete b w p = true ↔ ∀ e ∈ p.files b, w.files.readText e.1 = .ok e.2 := by
  have hpending : (pending b w p).isEmpty = true ↔
      ∀ e ∈ extras b p, w.files.readText e.1 = .ok e.2 := by
    rw [List.isEmpty_iff, pending, List.filter_eq_nil_iff]
    simp only [Bool.not_eq_true', Bool.not_eq_false, unchanged_iff]
  rw [complete, Bool.and_eq_true, unchanged_iff, hpending, Product.files, List.forall_mem_cons]

theorem complete_congr {w w' : World} (h : w'.files = w.files) (p : Product) :
    complete b w' p = complete b w p := by
  rw [Bool.eq_iff_iff, complete_iff, complete_iff, h]

theorem mem_files_of_mem_outputs {w : World} {p : Product} {e : Path × String}
    (h : e ∈ outputs b w p) : e ∈ p.files b := by
  rcases List.mem_cons.mp h with rfl | h
  · exact List.mem_cons_self
  · exact List.mem_cons_of_mem _ (List.mem_of_mem_filter h)

/-- The product of some work, if a registry does not refuse it. -/
def admitted? (r : Registry) (x : Work) : Option Product :=
  x.product.filter fun p => (r.conflict? p.plan).isNone

theorem product_of_admitted? {r : Registry} {x : Work} {p : Product} (h : admitted? r x = some p) :
    x.product = some p :=
  (Option.filter_eq_some_iff.mp h).1

/-- The registry with the product of some work, if it is not refused. -/
def enrol (r : Registry) (x : Work) : Registry :=
  match admitted? r x with
  | none => r
  | some p => r.accept p.plan

/-- The files that the commit of some work hands to the writer. -/
def handed (w : World) (x : Work) : List (Path × String) :=
  match admitted? w.registry x with
  | none => []
  | some p => if j.dryRun || complete b w p then [] else outputs b w p

theorem handed_of_admitted {w : World} {x : Work} {p : Product}
    (hp : admitted? w.registry x = some p) :
    handed b j w x = if j.dryRun || complete b w p then [] else outputs b w p := by
  unfold handed
  rw [hp]

theorem exists_of_mem_handed {w : World} {x : Work} {e : Path × String}
    (h : e ∈ handed b j w x) : ∃ p, admitted? w.registry x = some p ∧ e ∈ p.files b := by
  unfold handed at h
  split at h
  · cases h
  · rename_i p hp
    split at h
    · cases h
    · exact ⟨p, hp, mem_files_of_mem_outputs b h⟩

theorem handed_of_dryRun (hdry : j.dryRun = true) (w : World) (x : Work) :
    handed b j w x = [] := by
  unfold handed
  split
  · rfl
  · rw [hdry, Bool.true_or, if_pos rfl]

/-- What becomes of some work if no fault is met. -/
def verdict (w : World) (x : Work) : Outcome :=
  match admitted? w.registry x with
  | none => .failed
  | some p => if complete b w p then .skipped else .migrated

/-- The world with the work in its registry, after the writer has been at work, and the fault that
it has met, if any. -/
def delivery (w : World) (x : Work) : World × Option WriteFault :=
  { w with registry := enrol w.registry x }.writeAll faults (handed b j w x)

/-! ## Settling -/

/-- What settling some work comes to: it is told as it is, it is refused, or its product is
delivered. -/
theorem settle_cases (w : World) (x : Work) :
    (x.product = none ∧ admitted? w.registry x = none ∧
      settle b j faults w x = (w, x.events)) ∨
    (x.product ≠ none ∧ admitted? w.registry x = none ∧
      ∃ failure, settle b j faults w x = (w, x.events.fail failure)) ∨
    ∃ p, admitted? w.registry x = some p ∧ settle b j faults w x =
      deliver b j faults { w with registry := w.registry.accept p.plan } x.source p x.events := by
  unfold settle admitted? Registry.register
  cases x.product with
  | none => exact Or.inl ⟨rfl, rfl, rfl⟩
  | some p =>
    cases hconflict : w.registry.conflict? p.plan with
    | some conflict =>
      simp only [hconflict, Option.filter_some]
      exact Or.inr (Or.inl ⟨Option.some_ne_none p, rfl, _, rfl⟩)
    | none =>
      simp only [hconflict, Option.filter_some]
      exact Or.inr (Or.inr ⟨p, rfl, rfl⟩)

theorem deliver_fst (w : World) (source : String) (p : Product) (f : FileEvents) :
    (deliver b j faults w source p f).1 =
      (w.writeAll faults (if j.dryRun || complete b w p then [] else outputs b w p)).1 := by
  rw [deliver_eq]
  cases hdry : j.dryRun with
  | true => rfl
  | false =>
    rw [if_neg (by decide), Bool.false_or, ← complete]
    split
    · rfl
    · split <;> simp_all

/-- Settling leaves what the writer leaves. -/
theorem settle_fst (w : World) (x : Work) :
    (settle b j faults w x).1 = (delivery b j faults w x).1 := by
  unfold delivery handed enrol
  obtain ⟨-, hnone, h⟩ | ⟨-, hnone, failure, h⟩ | ⟨p, hp, h⟩ := settle_cases b j faults w x
  · rw [h, hnone]
    rfl
  · rw [h, hnone]
    rfl
  · rw [h, hp, deliver_fst]
    rfl

theorem outcome_preview (w : World) (source : String) (p : Product) (f : FileEvents) :
    (preview b w source p (pending b w p) f).outcome =
      some (if complete b w p then .skipped else .migrated) := by
  unfold preview complete unchanged Diff.Summary.of
  cases hread : w.files.readText p.plan.targetPath with
  | error e =>
    dsimp only
    split
    · rename_i hsummary
      split at hsummary
      · cases hsummary
      · rfl
    · rename_i summary hsummary
      split at hsummary
      · obtain rfl := Except.ok.inj hsummary
        rfl
      · cases hsummary
  | ok present =>
    dsimp only
    unfold Diff.Summary.between
    by_cases hsame : present = p.text
    · rw [if_pos hsame]
      cases hpending : (pending b w p).isEmpty <;> simp [hsame] <;> rfl
    · rw [if_neg hsame]
      have hbeq : (present == p.text) = false := beq_eq_false_iff_ne.mpr hsame
      simp only [hbeq]
      rfl

theorem outcome_deliver (w : World) (source : String) (p : Product) (f : FileEvents) :
    (deliver b j faults w source p f).2.outcome =
      some (match (w.writeAll faults
          (if j.dryRun || complete b w p then [] else outputs b w p)).2 with
        | some _ => .failed
        | none => if complete b w p then .skipped else .migrated) := by
  rw [deliver_eq]
  cases hdry : j.dryRun with
  | true => exact outcome_preview b w source p f
  | false =>
    rw [if_neg (by decide), Bool.false_or, ← complete]
    split
    · rfl
    · rename_i hcomplete
      split <;> simp_all <;> rfl

/-- **The outcome of some work is the verdict on it, unless the writer meets a fault.** -/
theorem outcome_settle (w : World) {x : Work} (hx : x.Proper b) :
    (settle b j faults w x).2.outcome =
      some (match (delivery b j faults w x).2 with
        | some _ => .failed
        | none => verdict b w x) := by
  unfold delivery handed enrol verdict
  obtain ⟨hproduct, hnone, h⟩ | ⟨-, hnone, failure, h⟩ | ⟨p, hp, h⟩ :=
    settle_cases b j faults w x
  · rw [h, hnone]
    exact hx.failed hproduct
  · rw [h, hnone]
    rfl
  · rw [h, hp, outcome_deliver]
    rfl

/-! ## The writer -/

@[simp] theorem registry_write (w : World) (path : Path) (text : String) :
    (w.write faults path text).1.registry = w.registry := by
  unfold write
  split
  · rfl
  · split <;> rfl

/-- A write leaves the disk alone, or as a write to the disk leaves it. -/
theorem files_write (w : World) (path : Path) (text : String) :
    (w.write faults path text).1.files = w.files ∨
      (w.write faults path text).1.files = (w.files.write path text).1 := by
  unfold write
  split
  · exact Or.inl rfl
  · split
    · rename_i hwrite
      rw [hwrite]
      exact Or.inr rfl
    · rename_i hwrite
      rw [hwrite]
      exact Or.inr rfl

/-- A write that meets no fault has been a write to the disk. -/
theorem write_of_none (w : World) (path : Path) (text : String)
    (h : (w.write faults path text).2 = none) :
    (w.write faults path text).1.files = (w.files.write path text).1 ∧
      (w.files.write path text).2 = .ok () := by
  unfold write at h ⊢
  split at h
  · cases h
  · rename_i hfault
    split at h
    · rename_i files hwrite
      simp [hwrite]
    · cases h

theorem grows_write (w : World) {path : Path} (hp : path ≠ Path.here) (text : String) :
    Disk.Grows (· = w.files.destination path) w.files (w.write faults path text).1.files := by
  rcases files_write faults w path text with hsame | hwrite
  · rw [hsame]
    exact .refl _ _
  · rw [hwrite]
    exact (Disk.write_cases hp text).1

/-- What every single write preserves, the writer preserves. -/
theorem writeAll_preserves {P : World → Prop} (l : List (Path × String)) (w : World) (hw : P w)
    (hstep : ∀ e ∈ l, ∀ v, P v → P (v.write faults e.1 e.2).1) :
    P (w.writeAll faults l).1 := by
  induction l generalizing w with
  | nil => exact hw
  | cons e rest ih =>
    have hfirst := hstep e List.mem_cons_self w hw
    unfold writeAll
    split
    · rename_i hwrite
      rw [hwrite] at hfirst
      exact hfirst
    · rename_i w' hwrite
      rw [hwrite] at hfirst
      exact ih w' hfirst fun e' he' => hstep e' (List.mem_cons_of_mem _ he')

/-- A writer that meets no fault has written the first file to the disk, and then the others. -/
theorem writeAll_of_none {w : World} {e : Path × String} {rest : List (Path × String)}
    (h : (w.writeAll faults (e :: rest)).2 = none) :
    ∃ w' : World, w'.files = (w.files.write e.1 e.2).1 ∧ (w.files.write e.1 e.2).2 = .ok () ∧
      w.writeAll faults (e :: rest) = w'.writeAll faults rest := by
  have hfirst := write_of_none faults w e.1 e.2
  rw [writeAll] at h ⊢
  split at h
  · cases h
  · rename_i w' hwrite
    rw [hwrite] at hfirst
    obtain ⟨hfiles, hok⟩ := hfirst rfl
    exact ⟨w', hfiles, hok, rfl⟩

@[simp] theorem registry_writeAll (l : List (Path × String)) (w : World) :
    (w.writeAll faults l).1.registry = w.registry :=
  writeAll_preserves faults (P := fun v => v.registry = w.registry) l w rfl
    fun e _ v hv => (registry_write faults v e.1 e.2).trans hv

theorem grows_writeAll (l : List (Path × String)) (w : World) (hl : ∀ e ∈ l, e.1 ≠ Path.here) :
    Disk.Grows (fun place => ∃ e ∈ l, w.files.destination e.1 = place) w.files
      (w.writeAll faults l).1.files := by
  refine writeAll_preserves faults
    (P := fun v => Disk.Grows (fun place => ∃ e ∈ l, w.files.destination e.1 = place)
      w.files v.files) l w (.refl _ _) fun e he v hv => hv.trans ?_
  refine (grows_write faults v (hl e he) e.2).mono ?_
  rintro place rfl
  exact ⟨e, he, (hv.destination e.1).symm⟩

theorem written_writeAll {d : Disk} {sent : List (Path × String)} (l : List (Path × String))
    (w : World) (hw : d.Written sent w.files) (hl : ∀ e ∈ l, e.1 ≠ Path.here)
    (hnone : (w.writeAll faults l).2 = none) :
    d.Written (sent ++ l) (w.writeAll faults l).1.files := by
  induction l generalizing w sent with
  | nil => rwa [List.append_nil]
  | cons e rest ih =>
    obtain ⟨w', hfiles, hok, hwriteAll⟩ := writeAll_of_none faults hnone
    rw [hwriteAll] at hnone ⊢
    have hnext : d.Written (sent ++ [e]) w'.files := by
      rw [hfiles]
      exact hw.concat (hl e List.mem_cons_self) hok
    have hrest := ih w' hnext (fun e' he' => hl e' (List.mem_cons_of_mem _ he')) hnone
    rwa [List.append_assoc, List.singleton_append] at hrest

/-! ## Runs -/

theorem files_commit (w : World) (x : Work) :
    (commit b j faults w x).files = (delivery b j faults w x).1.files := by
  rw [← settle_fst]
  rfl

theorem registry_commit (w : World) (x : Work) :
    (commit b j faults w x).registry = enrol w.registry x := by
  show (settle b j faults w x).1.registry = _
  rw [settle_fst, delivery, registry_writeAll]

/-- The files that the commits of some work, one after the other, hand to the writer. -/
def sent (w : World) : List Work → List (Path × String)
  | [] => []
  | x :: rest => handed b j w x ++ sent (commit b j faults w x) rest

theorem sent_append (before after : List Work) (w : World) :
    sent b j faults w (before ++ after) =
      sent b j faults w before ++ sent b j faults (before.foldl (commit b j faults) w) after := by
  induction before generalizing w with
  | nil => rfl
  | cons x rest ih =>
    rw [List.cons_append, sent, ih, sent, List.append_assoc, List.foldl_cons]

/-- The commits of some work, one after the other, meet no fault. -/
def Faultless (w : World) : List Work → Prop
  | [] => True
  | x :: rest => (delivery b j faults w x).2 = none ∧ Faultless (commit b j faults w x) rest

theorem faultless_append {before after : List Work} {w : World} :
    Faultless b j faults w (before ++ after) ↔
      Faultless b j faults w before ∧
        Faultless b j faults (before.foldl (commit b j faults) w) after := by
  induction before generalizing w with
  | nil => simp [Faultless]
  | cons x rest ih =>
    rw [List.cons_append, Faultless, ih, Faultless, and_assoc, List.foldl_cons]

theorem ne_here_of_mem_handed {w : World} {x : Work} (hx : x.Proper b) {e : Path × String}
    (he : e ∈ handed b j w x) : e.1 ≠ Path.here := by
  obtain ⟨p, hp, hmem⟩ := exists_of_mem_handed b j he
  exact hx.placed p (product_of_admitted? hp) e hmem

theorem grows_commit (w : World) {x : Work} (hx : x.Proper b) :
    Disk.Grows (fun place => ∃ e ∈ handed b j w x, w.files.destination e.1 = place) w.files
      (commit b j faults w x).files := by
  rw [files_commit]
  exact grows_writeAll faults (handed b j w x) { w with registry := enrol w.registry x }
    fun e he => ne_here_of_mem_handed b j hx he

/-- Commits change nothing but the files that they hand to the writer, and the directories above
them. -/
theorem grows_foldl_commit (works : List Work) (w : World) (hw : ∀ x ∈ works, x.Proper b) :
    Disk.Grows (fun place => ∃ e ∈ sent b j faults w works, w.files.destination e.1 = place)
      w.files (works.foldl (commit b j faults) w).files := by
  induction works generalizing w with
  | nil => exact .refl _ _
  | cons x rest ih =>
    have hfirst := grows_commit b j faults w (hw x List.mem_cons_self)
    rw [List.foldl_cons, sent]
    refine (hfirst.mono ?_).trans
      ((ih (commit b j faults w x) fun y hy => hw y (List.mem_cons_of_mem _ hy)).mono ?_)
    · rintro place ⟨e, he, hplace⟩
      exact ⟨e, List.mem_append_left _ he, hplace⟩
    · rintro place ⟨e, he, hplace⟩
      rw [hfirst.destination] at hplace
      exact ⟨e, List.mem_append_right _ he, hplace⟩

/-- **After commits that meet no fault, the disk is the one at the start with all that they have
sent written to it.** -/
theorem written_foldl_commit {d : Disk} {before : List (Path × String)} (works : List Work)
    (w : World) (hd : d.Written before w.files) (hw : ∀ x ∈ works, x.Proper b)
    (hnone : Faultless b j faults w works) :
    d.Written (before ++ sent b j faults w works) (works.foldl (commit b j faults) w).files := by
  induction works generalizing w before with
  | nil => rwa [sent, List.append_nil]
  | cons x rest ih =>
    have hfirst : d.Written (before ++ handed b j w x) (commit b j faults w x).files := by
      rw [files_commit]
      exact written_writeAll faults (handed b j w x) _ hd
        (fun e he => ne_here_of_mem_handed b j (hw x List.mem_cons_self) he) hnone.1
    have hrest := ih (commit b j faults w x) hfirst
      (fun y hy => hw y (List.mem_cons_of_mem _ hy)) hnone.2
    rwa [List.append_assoc, ← sent] at hrest

end World

/-! ## Counting outcomes -/

namespace Report

/-- How many files had an outcome. -/
def tally (r : Report) : Outcome → Nat
  | .migrated => r.migrated
  | .skipped => r.skipped
  | .failed => r.failed

theorem tally_merge (r : Report) (f : FileEvents) (o : Outcome) :
    (r.merge f).tally o = r.tally o + [f.outcome].count (some o) := by
  unfold merge count
  rcases f.outcome with _ | outcome
  · rfl
  · cases outcome <;> cases o <;> rfl

/-- A report counts the outcomes of the files that are merged into it. -/
theorem tally_foldl_merge (l : List FileEvents) (r : Report) (o : Outcome) :
    (l.foldl merge r).tally o = r.tally o + (l.map (·.outcome)).count (some o) := by
  induction l generalizing r with
  | nil => rfl
  | cons f rest ih =>
    rw [List.foldl_cons, ih, tally_merge, List.map_cons, Nat.add_assoc, ← List.count_append,
      List.singleton_append]

end Report

/-! ## Migrations that leave their inputs alone -/

namespace Migration
namespace Ready

open Schedule

variable {j : Job} {files : Disk} (g : Ready j files)

/-- The work on all files. -/
def all : List Work := g.found.map (Work.process g.batch j files)

theorem works_length : g.works g.found.length = g.all := by
  rw [works, List.take_length, all]

theorem all_eq_works_append (k : Nat) :
    g.all = g.works k ++ (g.found.drop k).map (Work.process g.batch j files) := by
  rw [all, works, ← List.map_append, List.take_append_drop]

theorem mem_all_of_mem_works {k : Nat} {x : Work} (h : x ∈ g.works k) : x ∈ g.all := by
  rw [g.all_eq_works_append k]
  exact List.mem_append_left _ h

theorem proper_of_mem_all {x : Work} (h : x ∈ g.all) : x.Proper g.batch := by
  obtain ⟨source, -, rfl⟩ := List.mem_map.mp h
  exact Work.proper_process g.batch j files source

/-- All files that are to be left behind. -/
def outputs : List (Path × String) :=
  g.all.flatMap fun x => x.product.toList.flatMap (Product.files g.batch)

theorem mem_outputs {e : Path × String} :
    e ∈ g.outputs ↔ ∃ x ∈ g.all, ∃ p, x.product = some p ∧ e ∈ p.files g.batch := by
  simp only [outputs, List.mem_flatMap, Option.mem_toList]

/-- The files that a migration sends to the writer when all work is committed in order. -/
def sent (faults : Faults) : List (Path × String) :=
  World.sent g.batch j faults g.opening g.all

theorem grows_committed (faults : Faults) :
    files.Grows (fun place => ∃ e ∈ g.sent faults, files.destination e.1 = place)
      (g.committed faults g.found.length).files := by
  rw [committed, g.works_length]
  exact World.grows_foldl_commit g.batch j faults g.all g.opening
    fun x hx => g.proper_of_mem_all hx

/-- The files that a migration reads are there, and it does not write them. -/
structure InputsKept (faults : Faults) : Prop where
  there : ∀ source ∈ g.found, ∀ p ∈ Work.inputs g.batch j files source,
    ∃ bytes, files.readBytes p = .ok bytes
  kept : ∀ source ∈ g.found, ∀ p ∈ Work.inputs g.batch j files source, ∀ e ∈ g.sent faults,
    files.destination e.1 ≠ files.destination p

/-- A migration of one file with no style files, which it does not write. -/
theorem inputsKept_of_single {faults : Faults} {source : String} {p : Path} {bytes : Bytes}
    (hfound : g.found = [source]) (hinputs : Work.inputs g.batch j files source = [p])
    (hread : files.readBytes p = .ok bytes)
    (hsent : ∀ e ∈ g.sent faults, files.destination e.1 ≠ files.destination p) :
    g.InputsKept faults := by
  have hall : ∀ a ∈ g.found, ∀ q ∈ Work.inputs g.batch j files a, q = p := by
    intro a ha q hq
    rw [hfound, List.mem_singleton] at ha
    rw [ha, hinputs, List.mem_singleton] at hq
    exact hq
  refine ⟨fun a ha q hq => ⟨bytes, ?_⟩, fun a ha q hq => ?_⟩
  · rw [hall a ha q hq]
    exact hread
  · rw [hall a ha q hq]
    exact hsent

/-- The work on a file comes to the same after other files have been committed. -/
theorem InputsKept.process_eq {faults : Faults} (h : g.InputsKept faults) {source : String}
    (hsource : source ∈ g.found) (k : Nat) :
    Work.process g.batch j (g.committed faults k).files source =
      Work.process g.batch j files source := by
  have hgrows := World.grows_foldl_commit g.batch j faults (g.works k) g.opening fun x hx =>
    g.proper_of_mem_all (g.mem_all_of_mem_works hx)
  refine Work.process_congr fun p hp => hgrows.readText ?_ (h.there source hsource p hp)
  rintro ⟨e, he, hplace⟩
  refine h.kept source hsource p hp e ?_ hplace
  rw [sent, g.all_eq_works_append k, World.sent_append]
  exact List.mem_append_left _ he

/-- If the work on a file comes to the same after other files have been committed, then what is
begun early comes to the same. -/
theorem steady_of_process_eq {faults : Faults} (calledOff : Nat → World → Bool)
    (h : ∀ k, ∀ a ∈ g.found, Work.process g.batch j (g.committed faults k).files a =
      Work.process g.batch j files a) :
    Steady (g.schedule faults calledOff) g.opening g.found := by
  intro k a ha
  rw [sequential_schedule]
  exact h k a (List.mem_of_mem_drop ha)

/-- A migration that is not called off, and leaves its inputs alone, commits all files in order. -/
theorem InputsKept.closing_eq {faults : Faults} (h : g.InputsKept faults)
    {calledOff : Nat → World → Bool} (hcalm : ∀ n w, calledOff n w = false) :
    g.closing faults calledOff = g.committed faults g.found.length := by
  have hsteady := g.steady_of_process_eq calledOff fun k a ha => h.process_eq g ha k
  obtain ⟨k, -, hclosing, hk⟩ := g.closing_eq faults calledOff hsteady
  rw [hclosing, hk hcalm, List.drop_length]
  rfl

end Ready
end Migration
end Transplant
