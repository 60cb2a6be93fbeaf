import Transplant.Proofs.Migration.Product

/-!
# Unresolved imports in the two modes

An import that no rule covers is refused in strict mode, and left as it is with a warning in
approximate mode.  Two batches that differ in nothing else treat a source alike up to the pass that
resolves specifiers.  There the approximate pass makes the edits that the strict pass makes for the
resolved specifiers alone, and adds one warning for each of the others.  The strict pass stops at
the first of these, with the plan that the approximate pass has reached there, unless a file of the
batch that is named before it has no path to be spelled by.  That stops both passes.

* `Batch.Unresolved`: the specifiers that no rule covers
* `Specifiers.editsFrom_approximate`: the approximate pass from the strict one
* `Specifiers.editsFrom_strict`: the strict pass up to the first unresolved specifier
* `Batch.modes_differ_on_unresolved_imports`: the two modes from the plan to the last pass
* `Batch.stray_place_first`: an import that is spelled before an unresolved one, and fails
-/

namespace Transplant

namespace Plan

/-- The plan with some more warnings. -/
def warnAll (p : Plan) (warnings : List String) : Plan :=
  { p with warnings := p.warnings ++ warnings }

@[simp] theorem warnAll_nil (p : Plan) : p.warnAll [] = p := by
  simp [warnAll]

@[simp] theorem warn_warnAll (p : Plan) (warning : String) (warnings : List String) :
    (p.warn warning).warnAll warnings = p.warnAll (warning :: warnings) := by
  simp [warn, warnAll]

theorem warnAll_warnAll (p : Plan) (first rest : List String) :
    (p.warnAll first).warnAll rest = p.warnAll (first ++ rest) := by
  simp [warnAll]

@[simp] theorem descriptor_warnAll (p : Plan) (warnings : List String) :
    (p.warnAll warnings).descriptor = p.descriptor := rfl

end Plan

/-! ## One specifier -/

namespace Batch

/-- The batch with another treatment of unresolved imports. -/
def under (b : Batch) (mode : Mismatch) : Batch :=
  { b with naming := { b.naming with mismatch := mode } }

/-- The plan in which a file is noted if it is a style file. -/
def noted (b : Batch) (p : Plan) (s : Sibling) : Plan :=
  if b.assets.contains s.path then p.note s.path else p

theorem noted_warnAll (b : Batch) (p : Plan) (warnings : List String) (s : Sibling) :
    b.noted (p.warnAll warnings) s = (b.noted p s).warnAll warnings := by
  unfold noted
  split <;> rfl

section

variable (b : Batch) (mode : Mismatch)

/-! Only the treatment of unresolved imports looks at the mode. -/

@[simp] theorem mismatch_under : (b.under mode).naming.mismatch = mode := rfl

@[simp] theorem noted_under (p : Plan) (s : Sibling) :
    (b.under mode).noted p s = b.noted p s := rfl

@[simp] theorem sibling?_under : (b.under mode).sibling? = b.sibling? := rfl

theorem redirects_under : (b.under mode).redirects = b.redirects := rfl

theorem aliased?_under (source specifier : String) :
    (b.under mode).aliased? source specifier = b.aliased? source specifier := rfl

@[simp] theorem outside_under (source specifier : String) :
    (b.under mode).outside source specifier = b.outside source specifier := by
  simp only [outside, redirects_under, aliased?_under]

@[simp] theorem targetOf_under (source : String) (component : Option String) :
    (b.under mode).targetOf source component = b.targetOf source component := by
  unfold targetOf
  rfl

@[simp] theorem siblingSpecifier_under (p : Plan) (specifier : String) (s : Sibling) :
    (b.under mode).siblingSpecifier p specifier s = b.siblingSpecifier p specifier s := by
  simp only [siblingSpecifier, targetOf_under]
  rfl

end

/-- A specifier in the file `source` is unresolved: it is relative and names no file of the batch,
and neither a redirect nor an alias of the target says what becomes of it. -/
structure Unresolved (b : Batch) (source specifier : String) : Prop where
  relative : Text.startsWith specifier "." = true
  noFile : b.file? source specifier = none
  noRedirect : b.redirects.resolve? specifier = none
  noAlias : b.aliased? source specifier = none

instance (b : Batch) (source specifier : String) : Decidable (b.Unresolved source specifier) :=
  decidable_of_iff (Text.startsWith specifier "." = true ∧ b.file? source specifier = none ∧
      b.redirects.resolve? specifier = none ∧ b.aliased? source specifier = none)
    ⟨fun h => ⟨h.1, h.2.1, h.2.2.1, h.2.2.2⟩,
      fun h => ⟨h.relative, h.noFile, h.noRedirect, h.noAlias⟩⟩

/-- The warning for a specifier that is left as it is. -/
def leftUnchanged (specifier : String) : String :=
  (Conflict.unresolved specifier).detail ++ "; left unchanged"

variable {b : Batch} {p : Plan} {source specifier : String}

theorem unresolved_iff :
    b.Unresolved source specifier ↔
      b.sibling? source specifier = none ∧ b.outside source specifier = .unresolved := by
  unfold sibling? outside
  constructor
  · intro h
    simp [h.relative, h.noFile, h.noRedirect, h.noAlias]
  · rintro ⟨hfile, houtside⟩
    cases hredirect : b.redirects.resolve? specifier with
    | some s => simp [hredirect] at houtside
    | none =>
      cases hrelative : Text.startsWith specifier "." with
      | false => simp [hredirect, hrelative] at houtside
      | true =>
        cases halias : b.aliased? source specifier with
        | some s => simp [hredirect, hrelative, halias] at houtside
        | none => exact ⟨hrelative, by simpa [hrelative] using hfile, hredirect, halias⟩

theorem unresolved_under {mode : Mismatch} :
    (b.under mode).Unresolved source specifier ↔ b.Unresolved source specifier := by
  simp only [unresolved_iff, sibling?_under, outside_under]

theorem resolve_of_unresolved (h : b.Unresolved p.descriptor.sourcePath specifier)
    (mode : Mismatch) :
    (b.under mode).resolve p specifier = match mode with
      | .strict =>
        (p.record (.unresolved specifier), .error (.refused (.of p (.unresolved specifier))))
      | .approximate => (p.warn (leftUnchanged specifier), .ok none) := by
  rw [unresolved_iff] at h
  obtain ⟨hsibling, houtside⟩ := h
  simp only [resolve, sibling?_under, hsibling, outside_under, houtside, mismatch_under]
  cases mode <;> rfl

/-- A file of the batch is spelled for where the plan puts the importing file, and a style file is
noted. -/
theorem resolve_of_sibling {s : Sibling}
    (h : b.sibling? p.descriptor.sourcePath specifier = some s) :
    b.resolve p specifier =
      (b.noted p s, ((b.siblingSpecifier p specifier s).map some).mapError .badPath) := by
  simp only [resolve, h, noted]
  split <;> rfl

/-- What becomes of a resolved specifier depends neither on the mode nor on the warnings, and there
is none for it. -/
theorem resolve_warnAll (h : ¬b.Unresolved p.descriptor.sourcePath specifier)
    (mode mode' : Mismatch) (warnings : List String) :
    (b.under mode).resolve (p.warnAll warnings) specifier =
      (((b.under mode').resolve p specifier).1.warnAll warnings,
        ((b.under mode').resolve p specifier).2) := by
  cases hsibling : b.sibling? p.descriptor.sourcePath specifier with
  | some s =>
    have hspell : b.siblingSpecifier (p.warnAll warnings) specifier s =
        b.siblingSpecifier p specifier s := rfl
    rw [resolve_of_sibling (b := b.under mode') (p := p) (s := s) hsibling,
      resolve_of_sibling (b := b.under mode) (p := p.warnAll warnings) (s := s) hsibling]
    simp only [noted_under, noted_warnAll, siblingSpecifier_under, hspell]
  | none =>
    have houtside : b.outside p.descriptor.sourcePath specifier ≠ .unresolved := by
      rw [unresolved_iff] at h
      exact fun houtside => h ⟨hsibling, houtside⟩
    simp only [resolve, Plan.descriptor_warnAll, sibling?_under, outside_under, hsibling]
    cases hout : b.outside p.descriptor.sourcePath specifier with
    | redirected s => rfl
    | aliased s => rfl
    | package => rfl
    | unresolved => exact absurd hout houtside

/-- Only a file of the batch can stop a resolved specifier, if it has no path to be spelled by. -/
theorem badPath_of_resolve {q : Plan} {e : PlanError}
    (h : ¬b.Unresolved p.descriptor.sourcePath specifier)
    (hresolve : b.resolve p specifier = (q, .error e)) : ∃ cause, e = .badPath cause := by
  cases hsibling : b.sibling? p.descriptor.sourcePath specifier with
  | some s =>
    rw [resolve_of_sibling hsibling] at hresolve
    have herror := (Prod.mk.inj hresolve).2
    cases hspell : b.siblingSpecifier p specifier s with
    | error cause =>
      rw [hspell] at herror
      exact ⟨cause, (Except.error.inj herror).symm⟩
    | ok new =>
      rw [hspell] at herror
      cases herror
  | none =>
    have houtside : b.outside p.descriptor.sourcePath specifier ≠ .unresolved := by
      rw [unresolved_iff] at h
      exact fun houtside => h ⟨hsibling, houtside⟩
    simp only [resolve, hsibling] at hresolve
    cases hout : b.outside p.descriptor.sourcePath specifier with
    | unresolved => exact absurd hout houtside
    | redirected s => simp [hout] at hresolve
    | aliased s => simp [hout] at hresolve
    | package => simp [hout] at hresolve

/-- A specifier changes nothing in a plan that notes, warnings and conflicts do not change. -/
theorem resolve_leaves {α : Type} {f : Plan → α} (hnote : ∀ p asset, f (Plan.note p asset) = f p)
    (hwarn : ∀ p warning, f (Plan.warn p warning) = f p)
    (hrecord : ∀ p conflict, f (Plan.record p conflict) = f p) (b : Batch) (p : Plan)
    (specifier : String) : f (b.resolve p specifier).1 = f p := by
  unfold resolve
  dsimp only
  split
  · split
    · exact hnote _ _
    · rfl
  · split
    · rfl
    · rfl
    · rfl
    · split
      · exact hrecord _ _
      · exact hwarn _ _

theorem descriptor_resolve (b : Batch) (p : Plan) (specifier : String) :
    (b.resolve p specifier).1.descriptor = p.descriptor :=
  resolve_leaves (fun _ _ => rfl) (fun _ _ => rfl) (fun _ _ => rfl) b p specifier

theorem warnings_resolve_strict (b : Batch) (p : Plan) (specifier : String) :
    ((b.under .strict).resolve p specifier).1.warnings = p.warnings := by
  simp only [resolve, mismatch_under]
  split
  · split <;> rfl
  · split <;> rfl

end Batch

/-! ## The specifiers of a file, one after the other -/

namespace Specifiers

variable {b : Batch} {p : Plan} {l : List (Node × String)}

theorem editsFrom_cons (b : Batch) (p : Plan) (e : Node × String) (rest : List (Node × String)) :
    editsFrom b p (e :: rest) = (b.resolve p e.2).2.bind fun new =>
      (editsFrom b (b.resolve p e.2).1 rest).map
        (Prod.map id ((edit? e.1 e.2 new).toList ++ ·)) := by
  rw [editsFrom]
  rcases b.resolve p e.2 with ⟨q, _ | new⟩ <;> rfl

theorem editsFrom_append (b : Batch) (p : Plan) (l l' : List (Node × String)) :
    editsFrom b p (l ++ l') = (editsFrom b p l).bind fun r =>
      (editsFrom b r.1 l').map (Prod.map id (r.2 ++ ·)) := by
  induction l generalizing p with
  | nil =>
    change editsFrom b p l' = (editsFrom b p l').map (Prod.map id ([] ++ ·))
    cases editsFrom b p l' <;> rfl
  | cons e rest ih =>
    rw [List.cons_append, editsFrom_cons, editsFrom_cons]
    cases (b.resolve p e.2).2 with
    | error err => rfl
    | ok new =>
      simp only [Except.bind, ih]
      cases editsFrom b (b.resolve p e.2).1 rest with
      | error err => rfl
      | ok r =>
        change ((editsFrom b r.1 l').map (Prod.map id (r.2 ++ ·))).map
            (Prod.map id ((edit? e.1 e.2 new).toList ++ ·)) =
          (editsFrom b r.1 l').map (Prod.map id ((edit? e.1 e.2 new).toList ++ r.2 ++ ·))
        cases editsFrom b r.1 l' with
        | error err => rfl
        | ok r' => simp [Except.map, Prod.map]

/-- Resolved specifiers get the same edits in both modes, whatever has been warned of before. -/
theorem editsFrom_warnAll (h : ∀ e ∈ l, ¬b.Unresolved p.descriptor.sourcePath e.2)
    (mode mode' : Mismatch) (warnings : List String) :
    editsFrom (b.under mode) (p.warnAll warnings) l =
      (editsFrom (b.under mode') p l).map (Prod.map (·.warnAll warnings) id) := by
  induction l generalizing p with
  | nil => rfl
  | cons e rest ih =>
    have hfirst := Batch.resolve_warnAll (h e List.mem_cons_self) mode mode' warnings
    have hdescriptor := Batch.descriptor_resolve (b.under mode') p e.2
    rw [editsFrom_cons, editsFrom_cons, hfirst]
    cases ((b.under mode').resolve p e.2).2 with
    | error err => rfl
    | ok new =>
      have hrest := ih (p := ((b.under mode').resolve p e.2).1) fun x hx => by
        rw [hdescriptor]
        exact h x (List.mem_cons_of_mem _ hx)
      simp only [Except.bind, hrest]
      cases editsFrom (b.under mode') ((b.under mode').resolve p e.2).1 rest <;> rfl

theorem editsFrom_under (h : ∀ e ∈ l, ¬b.Unresolved p.descriptor.sourcePath e.2)
    (mode mode' : Mismatch) : editsFrom (b.under mode) p l = editsFrom (b.under mode') p l := by
  have hsame := editsFrom_warnAll h mode mode' []
  rw [Plan.warnAll_nil] at hsame
  rw [hsame]
  cases editsFrom (b.under mode') p l <;> simp [Except.map, Prod.map]

theorem badPath_of_editsFrom (h : ∀ e ∈ l, ¬b.Unresolved p.descriptor.sourcePath e.2)
    {err : PlanError} (herror : editsFrom b p l = .error err) : ∃ cause, err = .badPath cause := by
  induction l generalizing p with
  | nil => cases herror
  | cons e rest ih =>
    rw [editsFrom_cons] at herror
    cases hresult : (b.resolve p e.2).2 with
    | error err' =>
      rw [hresult] at herror
      obtain rfl := Except.error.inj herror
      exact Batch.badPath_of_resolve (h e List.mem_cons_self) (Prod.ext rfl hresult)
    | ok new =>
      rw [hresult] at herror
      cases hrest : editsFrom b (b.resolve p e.2).1 rest with
      | error err' =>
        simp only [Except.bind, hrest, Except.map] at herror
        obtain rfl := Except.error.inj herror
        refine ih (fun x hx => ?_) hrest
        rw [Batch.descriptor_resolve]
        exact h x (List.mem_cons_of_mem _ hx)
      | ok r => simp [Except.bind, hrest, Except.map] at herror

/-- The specifiers among these that are unresolved. -/
def unresolved (b : Batch) (source : String) (l : List (Node × String)) : List (Node × String) :=
  l.filter fun e => b.Unresolved source e.2

/-- The specifiers among these that are resolved. -/
def resolved (b : Batch) (source : String) (l : List (Node × String)) : List (Node × String) :=
  l.filter fun e => ¬b.Unresolved source e.2

theorem not_unresolved_of_mem_resolved {source : String} {e : Node × String}
    (h : e ∈ resolved b source l) : ¬b.Unresolved source e.2 :=
  of_decide_eq_true (List.mem_filter.mp h).2

/-- The warnings for the unresolved ones among some specifiers. -/
def leftovers (b : Batch) (source : String) (l : List (Node × String)) : List String :=
  (unresolved b source l).map fun e => Batch.leftUnchanged e.2

/-- **The approximate pass makes the edits that the strict pass makes for the resolved specifiers
alone**, and adds one warning for each unresolved one, in order. -/
theorem editsFrom_approximate (b : Batch) (p : Plan) (l : List (Node × String)) :
    editsFrom (b.under .approximate) p l =
      (editsFrom (b.under .strict) p (resolved b p.descriptor.sourcePath l)).map
        (Prod.map (·.warnAll (leftovers b p.descriptor.sourcePath l)) id) := by
  induction l generalizing p with
  | nil => simp [resolved, leftovers, unresolved, editsFrom, Except.map, Prod.map]
  | cons e rest ih =>
    by_cases h : b.Unresolved p.descriptor.sourcePath e.2
    · have hresolved : resolved b p.descriptor.sourcePath (e :: rest) =
          resolved b p.descriptor.sourcePath rest := by
        simp [resolved, h]
      have hleft : leftovers b p.descriptor.sourcePath (e :: rest) =
          Batch.leftUnchanged e.2 :: leftovers b p.descriptor.sourcePath rest := by
        simp [leftovers, unresolved, h]
      have hwarn : p.warn (Batch.leftUnchanged e.2) = p.warnAll [Batch.leftUnchanged e.2] := rfl
      -- the warning is added in front of the rest, which does not look at it
      rw [editsFrom_cons, Batch.resolve_of_unresolved h, hresolved, hleft]
      simp only [Except.bind, ih, hwarn, Plan.descriptor_warnAll]
      rw [editsFrom_warnAll (fun _ => not_unresolved_of_mem_resolved) .strict .strict]
      cases editsFrom (b.under .strict) p (resolved b p.descriptor.sourcePath rest) with
      | error err => rfl
      | ok r => simp [Except.map, Prod.map, edit?, Plan.warnAll_warnAll]
    · have hresolved : resolved b p.descriptor.sourcePath (e :: rest) =
          e :: resolved b p.descriptor.sourcePath rest := by
        simp [resolved, h]
      have hleft : leftovers b p.descriptor.sourcePath (e :: rest) =
          leftovers b p.descriptor.sourcePath rest := by
        simp [leftovers, unresolved, h]
      have hfirst := Batch.resolve_warnAll h .approximate .strict []
      rw [Plan.warnAll_nil, Plan.warnAll_nil] at hfirst
      rw [hresolved, hleft, editsFrom_cons, editsFrom_cons, hfirst]
      cases ((b.under .strict).resolve p e.2).2 with
      | error err => rfl
      | ok new =>
        simp only [Except.bind, ih, Batch.descriptor_resolve]
        cases editsFrom (b.under .strict) ((b.under .strict).resolve p e.2).1
          (resolved b p.descriptor.sourcePath rest) <;> rfl

theorem descriptor_of_editsFrom {q : Plan} {edits : List Edit}
    (h : editsFrom b p l = .ok (q, edits)) : q.descriptor = p.descriptor :=
  editsFrom_lasting (P := fun q => q.descriptor = p.descriptor)
    ⟨fun _ _ hq => hq, fun _ _ _ hq => hq⟩ h rfl

theorem warnings_of_editsFrom_strict {q : Plan} {edits : List Edit}
    (h : editsFrom (b.under .strict) p l = .ok (q, edits)) : q.warnings = p.warnings := by
  induction l generalizing p edits with
  | nil =>
    obtain ⟨rfl, -⟩ := Prod.mk.inj (Except.ok.inj h)
    rfl
  | cons e rest ih =>
    rw [editsFrom_cons] at h
    obtain ⟨new, -, h⟩ := exists_of_bind h
    cases hrest : editsFrom (b.under .strict) ((b.under .strict).resolve p e.2).1 rest with
    | error err => simp [hrest, Except.map] at h
    | ok r =>
      simp only [hrest, Except.map, Except.ok.injEq] at h
      obtain ⟨rfl, -⟩ := Prod.mk.inj h
      exact (ih hrest).trans (Batch.warnings_resolve_strict b p e.2)

variable {before after : List (Node × String)} {name : Node} {specifier : String}

/-- **The strict pass stops at the first unresolved specifier**, with the plan of the approximate
pass in front of it. -/
theorem editsFrom_strict {q : Plan} {edits : List Edit}
    (hbefore : ∀ e ∈ before, ¬b.Unresolved p.descriptor.sourcePath e.2)
    (hspecifier : b.Unresolved p.descriptor.sourcePath specifier)
    (h : editsFrom (b.under .approximate) p before = .ok (q, edits)) :
    editsFrom (b.under .strict) p (before ++ (name, specifier) :: after) =
      .error (.refused (.of q (.unresolved specifier))) := by
  have hdescriptor := descriptor_of_editsFrom h
  rw [editsFrom_under hbefore .approximate .strict] at h
  rw [← hdescriptor] at hspecifier
  rw [editsFrom_append, h]
  simp only [Except.bind, editsFrom_cons, Batch.resolve_of_unresolved hspecifier, Except.map]

/-- What stops the pass in front of a specifier stops it in all. -/
theorem editsFrom_error {err : PlanError} (h : editsFrom b p before = .error err) :
    editsFrom b p (before ++ after) = .error err := by
  rw [editsFrom_append, h]
  rfl

/-- Edits stand between the quotes of these specifiers. -/
theorem exists_of_mem_editsFrom {q : Plan} {edits : List Edit} (h : editsFrom b p l = .ok (q, edits))
    {e : Edit} (he : e ∈ edits) : ∃ x ∈ l, e.start = x.1.start + 1 ∧ e.stop = x.1.stop - 1 := by
  induction l generalizing p edits with
  | nil =>
    obtain ⟨-, rfl⟩ := Prod.mk.inj (Except.ok.inj h)
    cases he
  | cons x rest ih =>
    rw [editsFrom_cons] at h
    obtain ⟨new, -, h⟩ := exists_of_bind h
    cases hrest : editsFrom b (b.resolve p x.2).1 rest with
    | error err => simp [hrest, Except.map] at h
    | ok r =>
      simp only [hrest, Except.map, Except.ok.injEq] at h
      obtain ⟨rfl, rfl⟩ := Prod.mk.inj h
      rcases List.mem_append.mp he with hfirst | hlater
      · obtain ⟨_, -, rfl⟩ := Option.map_eq_some_iff.mp (Option.mem_toList.mp hfirst)
        exact ⟨x, List.mem_cons_self, rfl, rfl⟩
      · obtain ⟨y, hy, hplace⟩ := ih hrest hlater
        exact ⟨y, List.mem_cons_of_mem x hy, hplace⟩

end Specifiers

/-! ## Whole runs -/

namespace Batch

open Specifiers (inTree editsFrom resolved unresolved leftovers)

/-- The draft of a source whose specifiers are resolved next: the plan and the first two passes. -/
def beforeSpecifiers (b : Batch) (source : Source) (d : Descriptor) :
    Except AdaptError Draft := do
  let plan ← (b.plan d).mapError .plan
  let draft ← Draft.normalizeDefaults b ⟨source, plan⟩
  Draft.renameTestAttributes b draft

theorem adapt_eq_beforeSpecifiers (b : Batch) (s : Source) (d : Descriptor) :
    b.adapt s d = b.beforeSpecifiers s d >>= fun mid =>
      Draft.resolveSpecifiers b mid >>= fun mid =>
        Draft.renameIdentifiers b mid >>= Draft.addHeader b := by
  simp only [adapt, adaptWith, beforeSpecifiers, bind_assoc]

section

variable (b : Batch) (mode : Mismatch)

theorem plan_under (d : Descriptor) : (b.under mode).plan d = b.plan d := by
  unfold plan
  simp only [targetOf_under]
  rfl

theorem beforeSpecifiers_under (s : Source) (d : Descriptor) :
    (b.under mode).beforeSpecifiers s d = b.beforeSpecifiers s d := by
  unfold beforeSpecifiers
  rw [plan_under]
  rfl

end

variable {b : Batch} {s : Source} {d : Descriptor} {mid : Draft}

/-- No conflict is recorded before specifiers are resolved. -/
theorem plan_beforeSpecifiers (h : b.beforeSpecifiers s d = .ok mid) :
    mid.plan.descriptor = d ∧ mid.plan.conflicts = [] := by
  obtain ⟨plan, hplan, h⟩ := exists_of_bind h
  obtain ⟨draft, hdefaults, hattributes⟩ := exists_of_bind h
  rw [Draft.plan_renameTestAttributes hattributes]
  refine Draft.normalizeDefaults_lasting (P := fun p => p.descriptor = d ∧ p.conflicts = [])
    ⟨fun _ _ hp => hp, fun _ _ _ hp => hp⟩ hdefaults ?_
  obtain ⟨place, given, -, rfl⟩ := plan_eq_planAt (ok_of_mapError hplan)
  exact ⟨rfl, rfl⟩

theorem adapt_of_edits_error {err : PlanError} (hmid : b.beforeSpecifiers s d = .ok mid)
    (h : Specifiers.edits b mid.plan mid.source.root = .error err) :
    b.adapt s d = .error (.plan err) := by
  simp only [adapt_eq_beforeSpecifiers, hmid, Draft.resolveSpecifiers, h, Except.mapError, bind,
    Except.bind]

/-- The modes agree if the specifiers give the same in both. -/
theorem adapt_under_congr {mode mode' : Mismatch} (hmid : b.beforeSpecifiers s d = .ok mid)
    (h : Specifiers.edits (b.under mode) mid.plan mid.source.root =
      Specifiers.edits (b.under mode') mid.plan mid.source.root) :
    (b.under mode).adapt s d = (b.under mode').adapt s d := by
  have hsame : Draft.resolveSpecifiers (b.under mode) mid =
      Draft.resolveSpecifiers (b.under mode') mid := by
    simp only [Draft.resolveSpecifiers, h]
  simp only [adapt_eq_beforeSpecifiers, beforeSpecifiers_under, hmid, bind, Except.bind, hsame]
  rfl

/-- The plan of an adapted source is the one after its specifiers have been resolved. -/
theorem exists_edits_of_adapt {out : Draft} (hmid : b.beforeSpecifiers s d = .ok mid)
    (h : b.adapt s d = .ok out) :
    ∃ edits, Specifiers.edits b mid.plan mid.source.root = .ok (out.plan, edits) := by
  rw [adapt_eq_beforeSpecifiers] at h
  obtain ⟨mid', hmid', h⟩ := exists_of_bind h
  obtain rfl := Except.ok.inj (hmid.symm.trans hmid')
  obtain ⟨d₃, hspecifiers, h⟩ := exists_of_bind h
  obtain ⟨d₄, hidentifiers, hheader⟩ := exists_of_bind h
  obtain ⟨⟨plan, edits⟩, hedits, hedit⟩ := exists_of_bind hspecifiers
  have hplan : d₃.plan = plan := Draft.plan_edit (d := ⟨mid.source, plan⟩) hedit
  refine ⟨edits, ?_⟩
  rw [Draft.plan_edit hheader, Draft.plan_renameIdentifiers hidentifiers, hplan]
  exact ok_of_mapError hedits

/-- **The two modes differ on unresolved imports only.**  If the passes before that of the
specifiers fail, they fail alike.  Otherwise let `mid` be the draft whose specifiers are resolved
next, and look at these specifiers in source order.

If all are resolved, both modes come to the same, be it a source with its plan or an error.
Otherwise, take the first unresolved one.  Either a file of the batch before it has no path that it
could be spelled by, and both modes fail for that reason; or strict mode refuses the source, and
the refused plan is the one that approximate mode has in front of this specifier, with this very
conflict.

The approximate pass makes the edits that the strict pass makes for the resolved specifiers alone.
So it leaves the unresolved ones as they are, and it adds a warning for each of these in order. -/
theorem modes_differ_on_unresolved_imports (b : Batch) (s : Source) (d : Descriptor) :
    (∀ e, (b.under .approximate).beforeSpecifiers s d = .error e →
      (b.under .strict).adapt s d = .error e ∧ (b.under .approximate).adapt s d = .error e) ∧
    ∀ mid, (b.under .approximate).beforeSpecifiers s d = .ok mid →
      ((∀ e ∈ inTree mid.source.root, ¬b.Unresolved d.sourcePath e.2) →
        (b.under .strict).adapt s d = (b.under .approximate).adapt s d) ∧
      (∀ before name specifier after,
        inTree mid.source.root = before ++ (name, specifier) :: after →
        (∀ e ∈ before, ¬b.Unresolved d.sourcePath e.2) → b.Unresolved d.sourcePath specifier →
        (∃ cause, editsFrom (b.under .approximate) mid.plan before = .error (.badPath cause) ∧
          (b.under .strict).adapt s d = .error (.plan (.badPath cause)) ∧
          (b.under .approximate).adapt s d = .error (.plan (.badPath cause))) ∨
        ∃ p edits, editsFrom (b.under .approximate) mid.plan before = .ok (p, edits) ∧
          (b.under .strict).adapt s d = .error (.plan (.refused
            ⟨.unresolved specifier, { p with conflicts := [.unresolved specifier] }⟩))) ∧
      Specifiers.edits (b.under .approximate) mid.plan mid.source.root =
        (editsFrom (b.under .strict) mid.plan
          (resolved b d.sourcePath (inTree mid.source.root))).map
            (Prod.map (·.warnAll (leftovers b d.sourcePath (inTree mid.source.root))) id) ∧
      ∀ out, (b.under .approximate).adapt s d = .ok out →
        out.plan.warnings =
            mid.plan.warnings ++ leftovers b d.sourcePath (inTree mid.source.root) ∧
          ∃ edits, Specifiers.edits (b.under .approximate) mid.plan mid.source.root =
              .ok (out.plan, edits) ∧
            ∀ e ∈ edits, ∃ x ∈ resolved b d.sourcePath (inTree mid.source.root),
              e.start = x.1.start + 1 ∧ e.stop = x.1.stop - 1 := by
  refine ⟨fun e he => ?_, fun mid hmid => ?_⟩
  · rw [beforeSpecifiers_under] at he
    simp only [adapt_eq_beforeSpecifiers, beforeSpecifiers_under, he, bind, Except.bind, and_self]
  rw [beforeSpecifiers_under] at hmid
  have hmid' (mode : Mismatch) : (b.under mode).beforeSpecifiers s d = .ok mid := by
    rw [beforeSpecifiers_under, hmid]
  obtain ⟨hdescriptor, hconflicts⟩ := plan_beforeSpecifiers hmid
  obtain rfl := hdescriptor
  have hall := Specifiers.editsFrom_approximate b mid.plan (inTree mid.source.root)
  refine ⟨fun hresolved => ?_, fun before name specifier after hsplit hbefore hspecifier => ?_, hall,
    fun out hout => ?_⟩
  · exact adapt_under_congr hmid (Specifiers.editsFrom_under hresolved .strict .approximate)
  · cases hpass : editsFrom (b.under .approximate) mid.plan before with
    | error err =>
      obtain ⟨cause, rfl⟩ := Specifiers.badPath_of_editsFrom
        (fun e he => unresolved_under.not.mpr (hbefore e he)) hpass
      have hstops (mode : Mismatch) :
          (b.under mode).adapt s mid.plan.descriptor = .error (.plan (.badPath cause)) := by
        refine adapt_of_edits_error (hmid' mode) ?_
        rw [Specifiers.edits, hsplit]
        refine Specifiers.editsFrom_error ?_
        rw [Specifiers.editsFrom_under hbefore mode .approximate, hpass]
      exact Or.inl ⟨cause, rfl, hstops .strict, hstops .approximate⟩
    | ok r =>
      obtain ⟨p, edits⟩ := r
      have hrefused : Refusal.of p (.unresolved specifier) =
          ⟨.unresolved specifier, { p with conflicts := [.unresolved specifier] }⟩ := by
        have hp : p.conflicts = [] := Specifiers.editsFrom_lasting (P := fun p => p.conflicts = [])
          ⟨fun _ _ hp => hp, fun _ _ _ hp => hp⟩ hpass hconflicts
        simp only [Refusal.of, Plan.record, hp]
        rfl
      refine Or.inr ⟨p, edits, rfl, adapt_of_edits_error (hmid' .strict) ?_⟩
      rw [Specifiers.edits, hsplit, ← hrefused]
      exact Specifiers.editsFrom_strict hbefore hspecifier hpass
  · obtain ⟨edits, hedits⟩ := exists_edits_of_adapt (hmid' .approximate) hout
    cases hstrict : editsFrom (b.under .strict) mid.plan
        (resolved b mid.plan.descriptor.sourcePath (inTree mid.source.root)) with
    | error err =>
      rw [Specifiers.edits, hall, hstrict] at hedits
      cases hedits
    | ok r =>
      have hpair := Except.ok.inj (hedits.symm.trans (hall.trans (by rw [hstrict]; rfl)))
      obtain ⟨hplan, rfl⟩ := Prod.mk.inj hpair
      refine ⟨?_, r.2, hedits, fun e he => Specifiers.exists_of_mem_editsFrom hstrict he⟩
      rw [hplan, ← Specifiers.warnings_of_editsFrom_strict hstrict]
      rfl

/-! ### An import that is spelled in front of an unresolved one -/

/-- A component that imports its neighbour and a file that is nowhere. -/
def twoImports : String :=
  "import B from './B';\nimport C from './C';\nexport const A = () => <p/>;\n"

/-- The component and its neighbour. -/
def neighbours : Batch where
  naming := { header := false }
  files := ["A.jsx", "B.jsx"]

/-- The same batch, in which the component is to go to a place outside. -/
def stray : Batch where
  naming := { header := false, pathOverrides := Table.ofPairs [("A.jsx", "/abs/A.jsx")] }
  files := ["A.jsx", "B.jsx"]

/-- The component as it is read, with its draft before specifiers are resolved. -/
def reached? (b : Batch) : Option (Source × Descriptor × Draft) := do
  let s ← (Source.parse twoImports "A.jsx").toOption
  let d ← (Descriptor.ofTree s.root s.language "A.jsx").toOption
  let mid ← (b.beforeSpecifiers s d).toOption
  return (s, d, mid)

theorem exists_of_reached? {P : Source × Descriptor × Draft → Bool}
    (h : b.reached?.any P = true) :
    ∃ s d mid, Source.parse twoImports "A.jsx" = .ok s ∧
      Descriptor.ofTree s.root s.language "A.jsx" = .ok d ∧ b.beforeSpecifiers s d = .ok mid ∧
      P (s, d, mid) = true := by
  obtain ⟨⟨s, d, mid⟩, hread, hP⟩ := (Option.any_eq_true _ _).mp h
  simp only [reached?, bind, Option.bind_eq_some_iff] at hread
  obtain ⟨s', hs, d', hd, mid', hmid, heq⟩ := hread
  obtain ⟨rfl, rfl, rfl⟩ := by simpa using heq
  exact ⟨s', d', mid', ok_of_toOption hs, ok_of_toOption hd, ok_of_toOption hmid, hP⟩

/-- The specifiers in a tree are those of the two imports. -/
def twoSpecifiers (root : Node) : Bool := (inTree root).map (·.2) == ["./B", "./C"]

theorem exists_names_of_twoSpecifiers {root : Node} (h : twoSpecifiers root = true) :
    ∃ first second, inTree root = [(first, "./B"), (second, "./C")] := by
  obtain ⟨x, l, hsplit, hx, hl⟩ := List.map_eq_cons_iff.mp (beq_iff_eq.mp h)
  obtain ⟨y, rest, rfl, hy, hrest⟩ := List.map_eq_cons_iff.mp hl
  obtain rfl := List.map_eq_nil_iff.mp hrest
  exact ⟨x.1, y.1, by rw [hsplit, ← hx, ← hy]⟩

theorem neighbours_check :
    neighbours.reached?.any (fun r => r.2.1.sourcePath == "A.jsx" &&
      twoSpecifiers r.2.2.source.root && r.2.2.plan.warnings == [] &&
      ((neighbours.under .approximate).adapt r.1 r.2.1).toOption.isSome) = true ∧
    neighbours.Unresolved "A.jsx" "./C" := by
  decide +kernel

/-- Strict mode refuses the component because of its second import, and approximate mode warns of
that. -/
theorem second_import_refused :
    ∃ s d, ∃ p : Plan, ∃ out, Source.parse twoImports "A.jsx" = .ok s ∧
      Descriptor.ofTree s.root s.language "A.jsx" = .ok d ∧
      (neighbours.under .strict).adapt s d = .error (.plan (.refused
        ⟨.unresolved "./C", { p with conflicts := [.unresolved "./C"] }⟩)) ∧
      (neighbours.under .approximate).adapt s d = .ok out ∧
      out.plan.warnings = ["No import rewrite rule matches './C'; left unchanged"] := by
  obtain ⟨hreached, hC⟩ := neighbours_check
  obtain ⟨s, d, mid, hs, hd, hmid, hcheck⟩ := exists_of_reached? hreached
  simp only [Bool.and_eq_true, beq_iff_eq] at hcheck
  obtain ⟨⟨⟨hpath, htwo⟩, hwarnings⟩, hadapted⟩ := hcheck
  obtain ⟨out, hout⟩ := Option.isSome_iff_exists.mp hadapted
  have hout := ok_of_toOption hout
  obtain ⟨first, second, hnames⟩ := exists_names_of_twoSpecifiers htwo
  have hB : ¬neighbours.Unresolved "A.jsx" "./B" := by decide
  rw [← beforeSpecifiers_under neighbours .approximate] at hmid
  obtain ⟨-, hfirst, -, hlast⟩ :=
    (modes_differ_on_unresolved_imports neighbours s d).2 mid hmid
  obtain ⟨cause, -, -, hfails⟩ | ⟨p, edits, -, hrefused⟩ :=
    hfirst [(first, "./B")] second "./C" [] hnames (by simpa [hpath] using hB) (hpath ▸ hC)
  · rw [hfails] at hout
    cases hout
  refine ⟨s, d, p, out, hs, hd, hrefused, hout, ?_⟩
  rw [(hlast out hout).1, hwarnings, hnames, hpath]
  simp [leftovers, unresolved, hB, hC]
  rfl

/-- The place outside is not below the root of the batch. -/
def strayError : PathError := .notBelow "/abs/A.jsx" "src/components_migrated_from_source"

/-- Why the specifiers of a draft cannot be resolved. -/
def stop? (b : Batch) (mid : Draft) : Option PlanError :=
  match Specifiers.edits b mid.plan mid.source.root with
  | .error e => some e
  | .ok _ => none

theorem stray_check :
    stray.reached?.any (fun r => r.2.1.sourcePath == "A.jsx" &&
      twoSpecifiers r.2.2.source.root &&
      stop? (stray.under .strict) r.2.2 == some (.badPath strayError)) = true ∧
    stray.Unresolved "A.jsx" "./C" := by
  decide +kernel

/-- **A file of the batch that is named first comes first.**  The component goes to a place from
which its neighbour cannot be spelled.  Strict mode fails for this reason, although the specifier
that comes next is unresolved. -/
theorem stray_place_first :
    ∃ s d mid, Source.parse twoImports "A.jsx" = .ok s ∧
      Descriptor.ofTree s.root s.language "A.jsx" = .ok d ∧
      (stray.under .approximate).beforeSpecifiers s d = .ok mid ∧
      (∃ name, (name, "./C") ∈ inTree mid.source.root ∧ stray.Unresolved d.sourcePath "./C") ∧
      (stray.under .strict).adapt s d = .error (.plan (.badPath strayError)) ∧
      ∀ refusal, (stray.under .strict).adapt s d ≠ .error (.plan (.refused refusal)) := by
  obtain ⟨hreached, hC⟩ := stray_check
  obtain ⟨s, d, mid, hs, hd, hmid, hcheck⟩ := exists_of_reached? hreached
  simp only [Bool.and_eq_true, beq_iff_eq] at hcheck
  obtain ⟨⟨hpath, htwo⟩, hstop⟩ := hcheck
  obtain ⟨first, second, hnames⟩ := exists_names_of_twoSpecifiers htwo
  have hfails : (stray.under .strict).adapt s d = .error (.plan (.badPath strayError)) := by
    refine adapt_of_edits_error ((beforeSpecifiers_under stray .strict s d).trans hmid) ?_
    unfold stop? at hstop
    split at hstop
    · rename_i e he
      rw [he, Option.some.inj hstop]
    · cases hstop
  refine ⟨s, d, mid, hs, hd, (beforeSpecifiers_under stray .approximate s d).trans hmid,
    ⟨second, ?_, hpath ▸ hC⟩, hfails, fun refusal hrefused => ?_⟩
  · rw [hnames]
    exact List.mem_cons_of_mem _ List.mem_cons_self
  · rw [hfails] at hrefused
    cases hrefused

end Batch
end Transplant
