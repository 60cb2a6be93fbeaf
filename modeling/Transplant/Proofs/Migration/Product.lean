import Transplant.Migration.Commit
import Transplant.Proofs.Adapt.Reading
import Transplant.Proofs.Plan.Registry
import Mathlib.Data.List.Forall2

/-!
# What the work on a file reads, and what it is to leave behind

The work on a file reads that file and the style files that it imports (`Work.inputs`), and looks
at no other file: `process_congr` says that it comes to the same on two disks on which these read
alike.

What is to be left behind is the component with its test and its copies of style files
(`Product.files`).  All of it goes below the root of the batch: the plan of a component puts it
there, and the passes that follow warn about things and note style files but never move it
(`Plan.Keeps`).  More generally, they leave whatever warnings and notes leave (`Plan.Lasting`).

* `Batch.adapt_lasting`, `Batch.adapt_keeps`: what the passes do to a plan
* `Work.process_cases`, `Work.process_congr`: what comes of the work on a file
* `Work.ne_here_of_mem_files`: every file of a product has a place of its own
-/

namespace Transplant

section Except

variable {ε α β : Type}

theorem exists_mem_of_forall₂ {R : α → β → Prop} {l : List α} {l' : List β}
    (h : List.Forall₂ R l l') {y : β} (hy : y ∈ l') : ∃ x ∈ l, R x y := by
  induction h with
  | nil => cases hy
  | @cons x _ _ _ hfirst _ ih =>
    rcases List.mem_cons.mp hy with rfl | hy
    · exact ⟨x, List.mem_cons_self, hfirst⟩
    · obtain ⟨x', hx', hfound⟩ := ih hy
      exact ⟨x', List.mem_cons_of_mem _ hx', hfound⟩

theorem forall₂_of_mapM {f : α → Except ε β} {l : List α} {l' : List β}
    (h : l.mapM f = .ok l') : List.Forall₂ (fun x y => f x = .ok y) l l' := by
  induction l generalizing l' with
  | nil =>
    obtain rfl := Except.ok.inj h
    exact .nil
  | cons x rest ih =>
    rw [List.mapM_cons] at h
    obtain ⟨first, hfirst, h⟩ := exists_of_bind h
    obtain ⟨others, hothers, h⟩ := exists_of_bind h
    obtain rfl := Except.ok.inj h
    exact .cons hfirst (ih hothers)

theorem exists_of_mem_mapM {f : α → Except ε β} {l : List α} {l' : List β}
    (h : l.mapM f = .ok l') {y : β} (hy : y ∈ l') : ∃ x ∈ l, f x = .ok y :=
  exists_mem_of_forall₂ (forall₂_of_mapM h) hy

theorem mapM_congr {f g : α → Except ε β} {l : List α} (h : ∀ x ∈ l, f x = g x) :
    l.mapM f = l.mapM g := by
  induction l with
  | nil => rfl
  | cons x rest ih =>
    rw [List.mapM_cons, List.mapM_cons, h x List.mem_cons_self,
      ih fun y hy => h y (List.mem_cons_of_mem _ hy)]

end Except

/-! ## Plans through the passes -/

namespace Plan

/-- What a pass may do to a plan: the file goes where it was to go, and only style files of the
batch are noted. -/
structure Keeps (b : Batch) (p q : Plan) : Prop where
  targetPath : q.targetPath = p.targetPath
  assets : ∀ a ∈ q.assets, a ∈ p.assets ∨ a ∈ b.assets

variable {b : Batch} {p q : Plan}

theorem Keeps.refl (b : Batch) (p : Plan) : Keeps b p p := ⟨rfl, fun _ => Or.inl⟩

theorem Keeps.note {asset : String} (h : Keeps b p q) (hasset : asset ∈ b.assets) :
    Keeps b p (q.note asset) := by
  refine ⟨h.targetPath, fun a ha => ?_⟩
  change a ∈ insertNew q.assets asset at ha
  unfold insertNew at ha
  split at ha
  · exact h.assets a ha
  · rcases List.mem_append.mp ha with ha | ha
    · exact h.assets a ha
    · exact Or.inr (List.mem_singleton.mp ha ▸ hasset)

/-- A property that plans do not lose when something is warned about or a style file of the batch is
noted. -/
structure Lasting (b : Batch) (P : Plan → Prop) : Prop where
  warn : ∀ p warning, P p → P (p.warn warning)
  note : ∀ p, ∀ asset ∈ b.assets, P p → P (p.note asset)

theorem lasting_keeps (b : Batch) (p : Plan) : Lasting b (Keeps b p) where
  warn _ _ h := ⟨h.targetPath, h.assets⟩
  note _ _ hasset h := h.note hasset

variable {P : Plan → Prop}

theorem Lasting.foldl_warn (hP : Lasting b P) (warnings : List String) :
    ∀ {p : Plan}, P p → P (warnings.foldl Plan.warn p) := by
  induction warnings with
  | nil => intro p h; exact h
  | cons w rest ih => intro p h; exact ih (hP.warn p w h)

end Plan

open Plan (Keeps Lasting)

/-! Whatever lasts, the passes leave. -/

section Passes

variable {b : Batch} {P : Plan → Prop}

theorem Batch.resolve_lasting (hP : Lasting b P) {p q : Plan} {specifier : String}
    {new : Option String} (h : b.resolve p specifier = (q, .ok new)) (hp : P p) : P q := by
  simp only [resolve] at h
  cases hsibling : b.sibling? p.descriptor.sourcePath specifier with
  | some s =>
    simp only [hsibling] at h
    obtain ⟨rfl, -⟩ := Prod.mk.inj h
    split
    · rename_i hasset
      exact hP.note p s.path (List.contains_iff_mem.mp hasset) hp
    · exact hp
  | none =>
    simp only [hsibling] at h
    cases houtside : b.outside p.descriptor.sourcePath specifier with
    | redirected s => simp only [houtside] at h; exact (Prod.mk.inj h).1 ▸ hp
    | aliased s => simp only [houtside] at h; exact (Prod.mk.inj h).1 ▸ hp
    | package => simp only [houtside] at h; exact (Prod.mk.inj h).1 ▸ hp
    | unresolved =>
      simp only [houtside] at h
      cases hmismatch : b.naming.mismatch with
      | strict =>
        simp only [hmismatch] at h
        exact nomatch (Prod.mk.inj h).2
      | approximate =>
        simp only [hmismatch] at h
        exact (Prod.mk.inj h).1 ▸ hP.warn p _ hp

theorem Specifiers.editsFrom_lasting (hP : Lasting b P) {l : List (Node × String)} {p p' : Plan}
    {edits : List Edit} (h : editsFrom b p l = .ok (p', edits)) (hp : P p) : P p' := by
  induction l generalizing p edits with
  | nil =>
    obtain ⟨rfl, -⟩ := Prod.mk.inj (Except.ok.inj h)
    exact hp
  | cons first rest ih =>
    simp only [editsFrom] at h
    split at h
    · cases h
    · rename_i q new hresolve
      cases hrest : editsFrom b q rest with
      | error e => simp [hrest, Except.map] at h
      | ok result =>
        simp only [hrest, Except.map, Except.ok.injEq, Prod.mk.injEq] at h
        obtain ⟨rfl, -⟩ := h
        exact ih hrest (b.resolve_lasting hP hresolve hp)

namespace Draft

variable {d d' : Draft}

theorem plan_edit {edits : List Edit} (h : d.edit edits = .ok d') : d'.plan = d.plan := by
  unfold edit at h
  split at h
  · obtain rfl := Except.ok.inj h
    rfl
  · cases h

theorem normalizeDefaults_lasting (hP : Lasting b P) (h : normalizeDefaults b d = .ok d')
    (hd : P d.plan) : P d'.plan := by
  obtain ⟨site, -, hedit⟩ := exists_of_bind h
  rw [plan_edit hedit]
  exact hP.foldl_warn _ hd

theorem plan_renameTestAttributes (h : renameTestAttributes b d = .ok d') :
    d'.plan = d.plan := by
  obtain ⟨edits, -, hedit⟩ := exists_of_bind h
  exact plan_edit hedit

theorem resolveSpecifiers_lasting (hP : Lasting b P) (h : resolveSpecifiers b d = .ok d')
    (hd : P d.plan) : P d'.plan := by
  obtain ⟨⟨plan, edits⟩, hedits, hedit⟩ := exists_of_bind h
  rw [plan_edit (d := ⟨d.source, plan⟩) hedit]
  exact Specifiers.editsFrom_lasting hP (ok_of_mapError hedits) hd

theorem plan_renameIdentifiers (h : renameIdentifiers b d = .ok d') : d'.plan = d.plan := by
  obtain ⟨edits, -, hedit⟩ := exists_of_bind h
  exact plan_edit hedit

end Draft

/-- The draft of a source whose names are replaced next: the plan and the first three passes. -/
def Batch.beforeNames (b : Batch) (source : Source) (d : Descriptor) :
    Except AdaptError Draft := do
  let plan ← (b.plan d).mapError .plan
  let draft ← Draft.normalizeDefaults b ⟨source, plan⟩
  let draft ← Draft.renameTestAttributes b draft
  Draft.resolveSpecifiers b draft

/-- The last two passes replace names and put the header. -/
theorem Batch.adapt_eq (b : Batch) (s : Source) (d : Descriptor) :
    b.adapt s d =
      b.beforeNames s d >>= fun mid => Draft.renameIdentifiers b mid >>= Draft.addHeader b := by
  simp only [adapt, adaptWith, beforeNames, bind_assoc]

theorem Batch.adapt_stages {s : Source} {d : Descriptor} {out : Draft}
    (h : b.adapt s d = .ok out) : ∃ mid named, b.beforeNames s d = .ok mid ∧
      Draft.renameIdentifiers b mid = .ok named ∧ Draft.addHeader b named = .ok out := by
  rw [adapt_eq] at h
  obtain ⟨mid, hmid, h⟩ := exists_of_bind h
  obtain ⟨named, hnamed, hout⟩ := exists_of_bind h
  exact ⟨mid, named, hmid, hnamed, hout⟩

/-- Whatever lasts and holds of the plan of a component holds of it before names are replaced. -/
theorem Batch.beforeNames_lasting {s : Source} {d : Descriptor} {mid : Draft}
    (h : b.beforeNames s d = .ok mid) :
    ∃ plan, b.plan d = .ok plan ∧ ∀ P, Lasting b P → P plan → P mid.plan := by
  obtain ⟨plan, hplan, h⟩ := exists_of_bind h
  obtain ⟨d₁, hdefaults, h⟩ := exists_of_bind h
  obtain ⟨d₂, hattributes, hspecifiers⟩ := exists_of_bind h
  refine ⟨plan, ok_of_mapError hplan, fun P hP hstart => ?_⟩
  refine Draft.resolveSpecifiers_lasting hP hspecifiers ?_
  rw [Draft.plan_renameTestAttributes hattributes]
  exact Draft.normalizeDefaults_lasting hP hdefaults hstart

/-- Whatever lasts and holds of the plan of a component holds of it after all passes. -/
theorem Batch.adapt_lasting {s : Source} {d : Descriptor} {out : Draft}
    (h : b.adapt s d = .ok out) :
    ∃ plan, b.plan d = .ok plan ∧ ∀ P, Lasting b P → P plan → P out.plan := by
  obtain ⟨mid, named, hmid, hnamed, hout⟩ := adapt_stages h
  obtain ⟨plan, hplan, hlasting⟩ := beforeNames_lasting hmid
  have hsame : out.plan = mid.plan :=
    (Draft.plan_edit hout).trans (Draft.plan_renameIdentifiers hnamed)
  exact ⟨plan, hplan, fun P hP hstart => hsame ▸ hlasting P hP hstart⟩

end Passes

namespace Batch

variable {b : Batch}

theorem eq_root_of_root? {root : Path} (h : b.root? = .ok root) : root = b.root := by
  unfold root? at h
  split at h
  · exact (Except.ok.inj h).symm
  · cases h

/-- A style file is copied to its place below the root. -/
theorem assetPath_cases {asset : String} {path : Path} (h : b.assetPath asset = .ok path) :
    ∃ place given, b.targetOf asset none = .ok (place, given) ∧ path = b.root ++ place := by
  obtain ⟨root, hroot, h⟩ := exists_of_bind h
  obtain ⟨⟨place, given⟩, hplace, h⟩ := exists_of_bind h
  obtain rfl := Except.ok.inj h
  exact ⟨place, given, ok_of_mapError hplace, by rw [eq_root_of_root? hroot]⟩

/-- **The passes leave a file where its plan puts it, and note style files of the batch only.** -/
theorem adapt_keeps {s : Source} {d : Descriptor} {out : Draft} (h : b.adapt s d = .ok out) :
    (∃ place, out.plan.targetPath = b.root ++ place) ∧ ∀ a ∈ out.plan.assets, a ∈ b.assets := by
  obtain ⟨plan, hplan, hlasting⟩ := adapt_lasting h
  have hkeeps := hlasting _ (Plan.lasting_keeps b plan) (.refl b plan)
  obtain ⟨place, given, -, rfl⟩ := plan_eq_planAt hplan
  exact ⟨⟨place, hkeeps.targetPath⟩, fun a ha =>
    (hkeeps.assets a ha).resolve_left List.not_mem_nil⟩

end Batch

/-! ## Places of their own -/

namespace Path

theorem append_eq_here_iff {p q : Path} : p ++ q = here ↔ p = here ∧ q = here := by
  cases p
  cases q
  rename_i root parts root' parts'
  by_cases hroot : root' = ""
  · rw [append_of_relative hroot]
    simp [here, hroot, and_assoc]
  · have happend : (⟨root, parts⟩ : Path) ++ ⟨root', parts'⟩ = ⟨root', parts'⟩ := if_neg hroot
    rw [happend]
    simp [here, hroot]

theorem append_ne_here {p : Path} (h : p ≠ here) (q : Path) : p ++ q ≠ here :=
  fun hhere => h (append_eq_here_iff.mp hhere).1

end Path

theorem Batch.root_ne_here (b : Batch) : b.root ≠ Path.here :=
  fun hhere => b.directory_ne_nil (congrArg Path.parts (Path.append_eq_here_iff.mp hhere).2)

/-- All files that belong to a product: the component, its test and its style files. -/
def Product.files (b : Batch) (p : Product) : List (Path × String) :=
  (p.plan.targetPath, p.text) :: World.extras b p

namespace Work

variable {b : Batch} {j : Job} {files files' : Disk} {source : String}

theorem adapt_cases {parsed : Source} {d : Descriptor} {draft : Draft} {text : String}
    (h : adapt b parsed d = .ok (draft, text)) : b.adapt parsed d = .ok draft := by
  obtain ⟨adapted, hadapted, h⟩ := exists_of_bind h
  obtain ⟨written, -, h⟩ := exists_of_bind h
  obtain ⟨rfl, -⟩ := Prod.mk.inj (Except.ok.inj h)
  exact ok_of_mapError hadapted

theorem copy_cases {asset : String} {e : Path × String} (h : copy b j files source asset = .ok e) :
    files.readText (j.sourceDir.child asset) = .ok e.2 ∧ b.assetPath asset = .ok e.1 := by
  obtain ⟨text, htext, h⟩ := exists_of_bind h
  obtain ⟨path, hpath, h⟩ := exists_of_bind h
  obtain rfl := Except.ok.inj h
  exact ⟨ok_of_mapError htext, ok_of_mapError hpath⟩

theorem finish_cases (b : Batch) (j : Job) (files : Disk) (source : String) (draft : Draft)
    (text : String) (f : FileEvents) :
    (∃ e, (finish b j files source draft text f).2 = .error e) ∨
      ∃ assets test, draft.plan.assets.mapM (copy b j files source) = .ok assets ∧
        test.isSome = j.generateTests ∧
        (finish b j files source draft text f).2 = .ok ⟨draft.plan, text, test, assets⟩ := by
  unfold finish
  split
  · exact Or.inl ⟨_, rfl⟩
  · rename_i assets hassets
    split
    · rename_i htests
      dsimp only
      cases testText b draft.plan (TestSpec.ofDescriptor draft.plan.descriptor) with
      | error e => exact Or.inl ⟨e, rfl⟩
      | ok test => exact Or.inr ⟨assets, some test, hassets, htests.symm, rfl⟩
    · rename_i htests
      exact Or.inr ⟨assets, none, hassets, (Bool.not_eq_true _ ▸ htests).symm, rfl⟩

/-- The work on a file fails, or it comes to a product: the file has been analysed and adapted, and
its style files have been read. -/
theorem process_cases (b : Batch) (j : Job) (files : Disk) (source : String) :
    ((process b j files source).product = none ∧
      (process b j files source).events.outcome = some .failed) ∨
    ∃ parsed d draft text assets test, analyse j files source = .ok (parsed, d) ∧
      adapt b parsed d = .ok (draft, text) ∧
      draft.plan.assets.mapM (copy b j files source) = .ok assets ∧
      test.isSome = j.generateTests ∧
      (process b j files source).product = some ⟨draft.plan, text, test, assets⟩ := by
  unfold process
  split
  · exact Or.inl ⟨rfl, rfl⟩
  · rename_i parsed d hanalyse
    dsimp only
    split
    · exact Or.inl ⟨rfl, rfl⟩
    · rename_i draft text hadapt
      split
      · exact Or.inl ⟨rfl, rfl⟩
      · rename_i f product hfinish
        refine Or.inr ⟨parsed, d, draft, text, ?_⟩
        obtain ⟨e, he⟩ | ⟨assets, test, hassets, htest, hok⟩ :=
          finish_cases b j files source draft text
            ((flag d { file := source, component := some d.name }).warnings draft.plan.warnings)
        · rw [hfinish] at he
          cases he
        · rw [hfinish] at hok
          exact ⟨assets, test, hanalyse, hadapt, hassets, htest,
            congrArg some (Except.ok.inj hok)⟩

/-- Every file of a product is to go below the root of the batch, to a place of its own. -/
theorem ne_here_of_mem_files {p : Product} (h : (process b j files source).product = some p)
    {e : Path × String} (he : e ∈ p.files b) : e.1 ≠ Path.here := by
  obtain ⟨hnone, -⟩ | ⟨parsed, d, draft, text, assets, test, -, hadapt, hassets, -, hproduct⟩ :=
    process_cases b j files source
  · rw [hnone] at h
    cases h
  · obtain rfl := Option.some.inj (hproduct.symm.trans h)
    rcases List.mem_cons.mp he with rfl | he
    · obtain ⟨⟨place, hplace⟩, -⟩ := Batch.adapt_keeps (adapt_cases hadapt)
      exact hplace ▸ Path.append_ne_here b.root_ne_here place
    · rcases List.mem_append.mp he with he | he
      · rw [Option.mem_toList, Option.map_eq_some_iff] at he
        obtain ⟨text, -, rfl⟩ := he
        exact Path.append_ne_here (Path.append_ne_here b.root_ne_here _) _
      · obtain ⟨asset, -, hcopy⟩ := exists_of_mem_mapM hassets he
        obtain ⟨place, given, -, hplace⟩ := Batch.assetPath_cases (copy_cases hcopy).2
        exact hplace ▸ Path.append_ne_here b.root_ne_here place

/-! ## Inputs -/

/-- The files that the work on a file reads: the file itself and the style files it imports. -/
def inputs (b : Batch) (j : Job) (files : Disk) (source : String) : List Path :=
  j.sourceDir.child source ::
    match analyse j files source with
    | .error _ => []
    | .ok (parsed, d) =>
      match adapt b parsed d with
      | .error _ => []
      | .ok (draft, _) => draft.plan.assets.map j.sourceDir.child

theorem analyse_congr
    (h : files'.readText (j.sourceDir.child source) = files.readText (j.sourceDir.child source)) :
    analyse j files' source = analyse j files source := by
  rw [analyse, h, analyse]

theorem finish_congr {draft : Draft} (text : String) (f : FileEvents)
    (h : ∀ a ∈ draft.plan.assets,
      files'.readText (j.sourceDir.child a) = files.readText (j.sourceDir.child a)) :
    finish b j files' source draft text f = finish b j files source draft text f := by
  have hcopy : draft.plan.assets.mapM (copy b j files' source) =
      draft.plan.assets.mapM (copy b j files source) := by
    refine mapM_congr fun a ha => ?_
    rw [copy, h a ha, copy]
  rw [finish, hcopy, finish]

/-- **The work on a file looks at nothing but its inputs.** -/
theorem process_congr
    (h : ∀ p ∈ inputs b j files source, files'.readText p = files.readText p) :
    process b j files' source = process b j files source := by
  have hsource := analyse_congr (h _ List.mem_cons_self)
  unfold process
  rw [hsource]
  split
  · rfl
  · rename_i parsed d hanalyse
    dsimp only
    split
    · rfl
    · rename_i draft text hadapt
      have hassets : ∀ a ∈ draft.plan.assets,
          files'.readText (j.sourceDir.child a) = files.readText (j.sourceDir.child a) := by
        intro a ha
        refine h _ (List.mem_cons_of_mem _ ?_)
        rw [hanalyse]
        simp only [hadapt]
        exact List.mem_map_of_mem ha
      rw [finish_congr text _ hassets]

/-- The inputs are the file itself and style files of the batch. -/
theorem mem_inputs_cases {p : Path} (h : p ∈ inputs b j files source) :
    ∃ s, p = j.sourceDir.child s ∧ (s = source ∨ s ∈ b.assets) := by
  rcases List.mem_cons.mp h with rfl | h
  · exact ⟨source, rfl, Or.inl rfl⟩
  · split at h
    · cases h
    · split at h
      · cases h
      · rename_i draft text hadapt
        obtain ⟨a, ha, rfl⟩ := List.mem_map.mp h
        exact ⟨a, rfl, Or.inr ((Batch.adapt_keeps (adapt_cases hadapt)).2 a ha)⟩

end Work
end Transplant
