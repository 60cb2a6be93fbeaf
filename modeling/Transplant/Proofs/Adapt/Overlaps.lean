import Transplant.Proofs.Adapt.Apart
import Transplant.Proofs.Adapt.Placement
import Transplant.Proofs.Defaults.Rewriting
import Transplant.Proofs.Grammar.Shapes

/-!
# When edits overlap

All passes but one make edits that are apart in any case.  The one exception are the defaults that
go from the object to the parameter.

Each pass over defaults changes members of the pattern and something else: the object, the statement
with the object, or the place behind a statement.  The something else is in another statement than
the component (`Site.Stands`), and though a statement is deleted with its line end, it does not get
as far as the members, since braces stand around these.  So what counts are the members.  Two props
have two members.  A default that goes to the object is that of a member, and a member is changed
once.  A default that comes from the object is that of an entry, and an object can have two entries
of one prop.  Then the member is changed twice (`Defaults.Doubled`).

That ranges are nested is not enough to see this.  In a tree with an identifier below an identifier
the edits of the two would overlap.  No source has such a tree (`Source.wellFormed_root`).

* `Defaults.Doubled`: an object with two static defaults for one prop that the parameter binds
* `Defaults.allApart_assigned`, `Defaults.allApart_explicit_iff`: the edits for defaults
* `Draft.overlaps_normalizeDefaults_iff`, `Batch.overlaps_adaptWith_iff`: the passes
* `Batch.overlap_iff_doubled`: all edits of all passes
-/

namespace Transplant

open Node
open Edit (AllApart Applicable)

/-! ## The edit of another statement -/

/-- An edit changes nothing but a node and the bytes next to it. -/
structure Edit.Near (e : Edit) (n : Node) : Prop where
  le_start : n.start ≤ e.start + 1
  start_le : e.start ≤ n.stop
  stop_le : e.stop ≤ n.stop + 1

theorem Edit.Within.near {e : Edit} {m n : Node} (h : e.Within m) (hstart : n.start ≤ m.start)
    (hstop : m.stop ≤ n.stop) : e.Near n := by
  obtain ⟨h₁, h₂, h₃⟩ := h
  constructor <;> omega

namespace Defaults

variable {root pattern m m' : Node} {a b : String}

/-- Members of two props are apart. -/
theorem apart_of_props (h : pattern.WellFormed) (hm : m ∈ pattern.parts) (hm' : m' ∈ pattern.parts)
    (hname : memberName? m = some a) (hname' : memberName? m' = some b) (hne : a ≠ b) :
    m.Apart m' := by
  refine h.apart_of_children (mem_children_of_mem_parts hm) (mem_children_of_mem_parts hm') ?_
    m.mem_walk_self m'.mem_walk_self
  rintro rfl
  exact hne (Option.some.inj (hname.symm.trans hname'))

/-- A member that binds a prop is not empty. -/
theorem wide_of_memberName? (h : m.Formed) (hname : memberName? m = some a) : m.start < m.stop := by
  refine h.wide ?_
  rcases memberName?_cases hname with ⟨hkind, -⟩ | ⟨hkind, -⟩ | ⟨hkind, -⟩ <;> rw [hkind] <;> decide

/-- A member of the pattern is apart from what is changed in or next to the statement with the
object. -/
theorem apart_of_near (h : root.WellFormed) (hpattern : Site.Stands root pattern)
    (hkind : pattern.kind = .objectPattern) (hm : m ∈ pattern.parts) {d : Site.Defaults}
    (hd : d.Lies root) {e e' : Edit} (he : e.Within m) (he' : e'.Near d.statement) : e.Apart e' := by
  obtain ⟨part, hpart, hother, hmem⟩ := hpattern
  have hchild := mem_children_of_mem_parts hpart
  have hne : part ≠ d.statement := by
    rintro rfl
    exact hother hd.isExpression
  have hapart := h.apart_of_children hchild (mem_children_of_mem_parts hd.statement) hne hmem
    d.statement.mem_walk_self
  have hpattern' := (h.of_children hchild).of_walk hmem
  have hbraces := hpattern'.formed.braces hkind m hm
  have hle := (h.of_children (mem_children_of_mem_parts hd.statement)).formed.start_le_stop
  obtain ⟨h₁, h₂, h₃⟩ := he
  obtain ⟨h₁', h₂', h₃'⟩ := he'
  rcases hapart with hapart | hapart
  · exact .inl ⟨by omega, by omega⟩
  · exact .inr ⟨by omega, by omega⟩

theorem within_replace (h : m.WellFormed) (text : String) : (replace m text).Within m :=
  within_of_places h.formed.start_le_stop rfl rfl

theorem near_delete {n : Node} (h : n.start ≤ n.stop) (bytes : Bytes) : (delete bytes n).Near n := by
  unfold delete
  constructor <;> dsimp only <;> repeat' split
  all_goals omega

theorem near_replace_object (h : root.WellFormed) {d : Site.Defaults} (hd : d.Lies root)
    (text : String) : (replace d.object text).Near d.statement := by
  have hstatement := h.of_children (mem_children_of_mem_parts hd.statement)
  have hrange := hstatement.allNested.range hd.object
  exact (within_replace (hstatement.of_walk hd.object) text).near hrange.1 hrange.2

theorem near_shrink (h : root.WellFormed) {d : Site.Defaults} (hd : d.Lies root) (bytes : Bytes)
    (moved : List Nat) : (shrink bytes d moved).Near d.statement := by
  unfold shrink
  dsimp only
  split
  · exact near_delete (h.of_children (mem_children_of_mem_parts hd.statement)).formed.start_le_stop
      bytes
  · exact near_replace_object h hd _

/-! ## From the object to the parameter -/

/-- Two entries of an object have one prop, which a pattern binds, and both have static values. -/
structure Twice (pattern : Node) (p q : Site.DefaultPair) : Prop where
  prop_eq : p.prop = q.prop
  bound : ∃ m ∈ pattern.parts, memberName? m = some p.prop
  isStatic : Expression.isStatic p.value = true
  isStatic' : Expression.isStatic q.value = true

theorem edit?_moveOf_eq_some_iff {p : Site.DefaultPair} {e : Edit} :
    (moveOf (members pattern) p).edit? = some e ↔ Expression.isStatic p.value = true ∧
      ∃ m, (members pattern).get? p.prop = some m ∧
        e = replace m (bindingText m ++ " = " ++ p.value.text) := by
  unfold moveOf
  by_cases hstatic : Expression.isStatic p.value = true
  · cases hget : (members pattern).get? p.prop with
    | none => simp [hstatic, Move.edit?]
    | some m => simp [hstatic, Move.edit?, eq_comm]
  · simp [hstatic, Move.edit?]

/-- The edits of two entries are apart unless they change a member twice. -/
theorem apart_moves_iff (h : pattern.WellFormed) (p q : Site.DefaultPair) :
    (∀ e, (moveOf (members pattern) p).edit? = some e →
      ∀ e', (moveOf (members pattern) q).edit? = some e' → e.Apart e') ↔ ¬Twice pattern p q := by
  have hformed : ∀ {m : Node}, m ∈ pattern.parts → m.WellFormed := fun hm =>
    h.of_children (mem_children_of_mem_parts hm)
  constructor
  · rintro hapart ⟨hprop, hbound, hstatic, hstatic'⟩
    obtain ⟨m, hm⟩ := exists_get? hbound
    obtain ⟨hmem, hname⟩ := member_of_get? hm
    have hwide := wide_of_memberName? (hformed hmem).formed hname
    have h' := hapart _ (edit?_moveOf_eq_some_iff.mpr ⟨hstatic, m, hm, rfl⟩) _
      (edit?_moveOf_eq_some_iff.mpr ⟨hstatic', m, hprop ▸ hm, rfl⟩)
    rcases h' with ⟨-, hstop⟩ | ⟨-, hstop⟩ <;> dsimp only [replace] at hstop <;> omega
  · intro honce e he e' he'
    obtain ⟨hstatic, m, hm, rfl⟩ := edit?_moveOf_eq_some_iff.mp he
    obtain ⟨hstatic', m', hm', rfl⟩ := edit?_moveOf_eq_some_iff.mp he'
    obtain ⟨hmem, hname⟩ := member_of_get? hm
    obtain ⟨hmem', hname'⟩ := member_of_get? hm'
    have hne : p.prop ≠ q.prop := fun hprop =>
      honce ⟨hprop, ⟨m, hmem, hname⟩, hstatic, hstatic'⟩
    exact (within_replace (hformed hmem) _).apart (within_replace (hformed hmem') _)
      (apart_of_props h hmem hmem' hname hname' hne)

/-- The edits that move static defaults into a pattern are apart exactly if no member is changed
twice. -/
theorem allApart_moves_iff (h : root.WellFormed) (hpattern : Site.Stands root pattern)
    (hkind : pattern.kind = .objectPattern) {d : Site.Defaults} (hd : d.Lies root) (bytes : Bytes)
    (moved : List Nat) :
    AllApart ((d.pairs.map (moveOf (members pattern))).filterMap Move.edit? ++
        (if moved.isEmpty then [] else [shrink bytes d moved])) ↔
      d.pairs.Pairwise fun p q => ¬Twice pattern p q := by
  obtain ⟨part, hpart, hother, hmem⟩ := id hpattern
  have hpattern' := (h.of_children (mem_children_of_mem_parts hpart)).of_walk hmem
  have hmembers : AllApart ((d.pairs.map (moveOf (members pattern))).filterMap Move.edit?) ↔
      d.pairs.Pairwise fun p q => ¬Twice pattern p q := by
    rw [AllApart, List.pairwise_filterMap, List.pairwise_map]
    exact List.Pairwise.iff fun p q => apart_moves_iff hpattern' p q
  rw [AllApart, List.pairwise_append, ← AllApart, hmembers]
  refine and_iff_left ⟨?_, fun e he e' he' => ?_⟩
  · split
    · exact .nil
    · exact List.pairwise_singleton _ _
  · obtain ⟨move, hmove, hedit⟩ := List.mem_filterMap.mp he
    obtain ⟨p, -, rfl⟩ := List.mem_map.mp hmove
    obtain ⟨-, m, hm, rfl⟩ := edit?_moveOf_eq_some_iff.mp hedit
    obtain ⟨hmem', -⟩ := member_of_get? hm
    have hwithin := within_replace (hpattern'.of_children (mem_children_of_mem_parts hmem'))
    split at he'
    · cases he'
    · obtain rfl := List.mem_singleton.mp he'
      exact apart_of_near h hpattern hkind hmem' hd (hwithin _) (near_shrink h hd bytes _)

/-- The pattern that the props of a component are taken apart with, if it is one. -/
def patternOf? (site : Site) : Option Node :=
  (Function.params site.callable).head?.map fun p => (Function.pattern p).1

/-- The object has two entries of one prop, at different places, which the parameter binds and which
have static values. -/
def Doubled (source : Source) (site : Site) : Prop :=
  ∃ pattern d, patternOf? site = some pattern ∧ pattern.kind = .objectPattern ∧
    Site.defaults? source.root site = some d ∧
    ∃ i j : Fin d.pairs.length, i < j ∧ Twice pattern d.pairs[i] d.pairs[j]

theorem stands_pattern {site : Site} (hsite : Site.Stands root site.callable)
    (hpattern : patternOf? site = some pattern) : Site.Stands root pattern := by
  obtain ⟨part, hpart, hother, hmem⟩ := hsite
  obtain ⟨param, hparam, rfl⟩ := Option.map_eq_some_iff.mp hpattern
  have hparam' := Function.mem_walk_of_mem_params (List.mem_of_head? hparam)
  exact ⟨part, hpart, hother, walk_trans hmem (walk_trans hparam' (Function.pattern_mem_walk param))⟩

theorem exists_twice_iff {d : Site.Defaults} :
    (∃ i j : Fin d.pairs.length, i < j ∧ Twice pattern d.pairs[i] d.pairs[j]) ↔
      ¬d.pairs.Pairwise fun p q => ¬Twice pattern p q := by
  rw [List.pairwise_iff_get]
  simp only [not_forall, exists_prop, not_not]
  rfl

/-- **The edits that move defaults into the parameter are apart exactly if no default is doubled.** -/
theorem allApart_explicit_iff {source : Source} {site : Site} (h : source.root.WellFormed)
    (hsite : Site.Stands source.root site.callable) :
    AllApart (normalize .explicit source site).edits ↔ ¬Doubled source site := by
  change AllApart (toParameter source.bytes site (patternOf? site)
    (Site.defaults? source.root site)).edits ↔ _
  unfold toParameter Doubled
  split
  · rename_i hnone
    exact iff_of_true .nil (by simp [hnone])
  · rename_i d hd
    split
    · rename_i hempty
      refine iff_of_true .nil ?_
      rintro ⟨pattern, d', -, -, hd', i, -⟩
      obtain rfl := Option.some.inj (hd.symm.trans hd')
      rw [List.isEmpty_iff] at hempty
      exact absurd i.isLt (by simp [hempty])
    split
    · rename_i hnone
      refine iff_of_true .nil ?_
      rintro ⟨pattern, -, hpattern, hkind, -⟩
      rw [hpattern] at hnone
      simp [hkind] at hnone
    · rename_i pattern hsome
      obtain ⟨hpattern, hkind⟩ := Option.filter_eq_some_iff.mp hsome
      have hkind := beq_iff_eq.mp hkind
      dsimp only
      rw [allApart_moves_iff h (stands_pattern hsite hpattern) hkind (Site.lies_of_defaults? hd),
        ← not_iff_not, ← exists_twice_iff, not_not]
      constructor
      · exact fun htwice => ⟨pattern, d, hpattern, hkind, hd, htwice⟩
      · rintro ⟨pattern', d', hpattern', -, hd', htwice⟩
        obtain rfl := Option.some.inj (hd.symm.trans hd')
        obtain rfl := Option.some.inj (hpattern.symm.trans hpattern')
        exact htwice

/-! ## From the parameter to the object -/

theorem edit?_of_liftOf? {site : Site} {entry : String × Node} {lift : Lift}
    (hlift : liftOf? site entry = some lift) {e : Edit} (he : lift.edit? = some e) :
    e = replace entry.2 (bindingText entry.2) := by
  obtain ⟨default, -, rfl⟩ := Option.map_eq_some_iff.mp hlift
  split at he
  · cases he
  split at he
  · cases he
  · exact (Option.some.inj he).symm

/-- What is added for lifted defaults, in the object or behind the statement of the component. -/
theorem apart_of_extend (h : root.WellFormed) {site : Site}
    (hstatement : site.statement ∈ root.parts) (hpattern : Site.Stands root pattern)
    (hkind : pattern.kind = .objectPattern) (hm : m ∈ pattern.parts)
    {defaults : Option Site.Defaults} (hdefaults : ∀ d, defaults = some d → d.Lies root)
    (entries : List String) {e : Edit} (he : e.Within m) :
    e.Apart (extend site defaults entries) := by
  cases defaults with
  | some d =>
    have hd := hdefaults d rfl
    exact apart_of_near h hpattern hkind hm hd he (near_replace_object h hd _)
  | none =>
    obtain ⟨part, hpart, -, hmem⟩ := hpattern
    have hrange := (h.of_children (mem_children_of_mem_parts hpart)).allNested.range
      (walk_trans hmem (mem_walk_of_mem_parts hm))
    have hle := (h.of_children (mem_children_of_mem_parts hstatement)).formed.start_le_stop
    obtain ⟨h₁, h₂, h₃⟩ := he
    unfold extend
    by_cases hsame : part = site.statement
    · subst hsame
      exact .inl ⟨by dsimp only; omega, by dsimp only; omega⟩
    · rcases h.apart_of_children (mem_children_of_mem_parts hpart)
        (mem_children_of_mem_parts hstatement) hsame part.mem_walk_self
        site.statement.mem_walk_self with hapart | hapart
      · exact .inl ⟨by dsimp only; omega, by dsimp only; omega⟩
      · exact .inr ⟨by dsimp only; omega, by dsimp only; omega⟩

/-- **The edits that move defaults into the object are apart.** -/
theorem allApart_assigned {source : Source} {site : Site} (h : source.root.WellFormed)
    (hsite : Site.Stands source.root site.callable)
    (hstatement : site.statement ∈ source.root.parts) :
    AllApart (normalize .assigned source site).edits := by
  change AllApart (toObject site (patternOf? site) (Site.defaults? source.root site)).edits
  unfold toObject
  split
  · exact .nil
  · rename_i pattern hsome
    obtain ⟨hpattern, hkind⟩ := Option.filter_eq_some_iff.mp hsome
    have hstands := stands_pattern hsite hpattern
    obtain ⟨part, hpart, -, hmem⟩ := id hstands
    have hformed := (h.of_children (mem_children_of_mem_parts hpart)).of_walk hmem
    have hmember : ∀ {entry : String × Node}, entry ∈ (members pattern).entries →
        entry.2 ∈ pattern.parts ∧ memberName? entry.2 = some entry.1 := fun hentry =>
      member_of_get? (Table.mem_entries_iff.mp hentry)
    have hwithin : ∀ {entry : String × Node} (text : String), entry ∈ (members pattern).entries →
        (replace entry.2 text).Within entry.2 := fun text hentry =>
      within_replace (hformed.of_children (mem_children_of_mem_parts (hmember hentry).1)) text
    dsimp only
    refine List.pairwise_append.mpr ⟨?_, ?_, fun e he e' he' => ?_⟩
    · have hdistinct : (members pattern).entries.Pairwise fun x y => x.1 ≠ y.1 :=
        List.pairwise_map.mp (members pattern).distinct
      rw [List.pairwise_filterMap, List.pairwise_filterMap]
      refine hdistinct.imp_of_mem fun {x y} hx hy hne l hl l' hl' e he e' he' => ?_
      rw [edit?_of_liftOf? hl he, edit?_of_liftOf? hl' he']
      exact (hwithin _ hx).apart (hwithin _ hy)
        (apart_of_props hformed (hmember hx).1 (hmember hy).1 (hmember hx).2 (hmember hy).2 hne)
    · split
      · exact .nil
      · exact List.pairwise_singleton _ _
    · obtain ⟨lift, hlift, he⟩ := List.mem_filterMap.mp he
      obtain ⟨entry, hentry, hlift⟩ := List.mem_filterMap.mp hlift
      rw [edit?_of_liftOf? hlift he]
      split at he'
      · cases he'
      · obtain rfl := List.mem_singleton.mp he'
        exact apart_of_extend h hstatement hstands (beq_iff_eq.mp hkind) (hmember hentry).1
          (fun d hd => Site.lies_of_defaults? hd) _ (hwithin _ hentry)

/-! ## Both ways -/

theorem nonneg_replace (n : Node) (text : String) : 0 ≤ (replace n text).start :=
  Int.natCast_nonneg n.start

theorem nonneg_delete (bytes : Bytes) (n : Node) : 0 ≤ (delete bytes n).start := by
  unfold delete
  dsimp only
  split
  · rename_i hbefore
    have hlength := congrArg List.length hbefore
    simp only [List.length_drop, List.length_take, List.length_cons, List.length_nil] at hlength
    omega
  · exact Int.natCast_nonneg n.start

theorem nonneg_edits (style : DefaultStyle) (source : Source) (site : Site) :
    ∀ e ∈ (normalize style source site).edits, 0 ≤ e.start := by
  have hmoves : ∀ {l : List Move}, ∀ e ∈ l.filterMap Move.edit?, 0 ≤ e.start := by
    intro l e he
    obtain ⟨move, -, he⟩ := List.mem_filterMap.mp he
    rw [Move.edit?_eq] at he
    obtain ⟨r, -, rfl⟩ := Option.map_eq_some_iff.mp he
    exact nonneg_replace _ _
  have hlifts : ∀ {l : List Lift}, ∀ e ∈ l.filterMap Lift.edit?, 0 ≤ e.start := by
    intro l e he
    obtain ⟨lift, -, he⟩ := List.mem_filterMap.mp he
    rw [Lift.edit?_eq] at he
    obtain ⟨r, -, rfl⟩ := Option.map_eq_some_iff.mp he
    exact nonneg_replace _ _
  have hone : ∀ {quiet : Bool} {e' : Edit}, 0 ≤ e'.start →
      ∀ e ∈ (if quiet then [] else [e']), 0 ≤ e.start := by
    intro quiet e' he'
    cases quiet
    · exact List.forall_mem_singleton.mpr he'
    · exact nofun
  unfold normalize
  dsimp only
  split
  · unfold toParameter
    split
    · exact nofun
    split
    · exact nofun
    split
    · exact nofun
    · refine List.forall_mem_append.mpr ⟨hmoves, hone ?_⟩
      unfold shrink
      dsimp only
      split
      · exact nonneg_delete _ _
      · exact nonneg_replace _ _
  · unfold toObject
    split
    · exact nofun
    · refine List.forall_mem_append.mpr ⟨hlifts, hone ?_⟩
      unfold extend
      split
      · exact nonneg_replace _ _
      · exact Int.natCast_nonneg _

end Defaults

/-! ## The passes -/

/-- A result is an overlap of edits. -/
def AdaptError.Overlaps {α : Type} (result : Except AdaptError α) : Prop :=
  ∃ path start, result = .error (.edit (.overlap path start))

open AdaptError (Overlaps)

section Overlaps

variable {α β ε : Type}

theorem not_overlaps_ok (a : α) : ¬Overlaps (.ok a : Except AdaptError α) := by
  rintro ⟨path, start, h⟩
  cases h

/-- A step overlaps, or goes through and what follows overlaps. -/
theorem overlaps_bind_iff {x : Except AdaptError α} {f : α → Except AdaptError β} :
    Overlaps (x >>= f) ↔ Overlaps x ∨ ∃ a, x = .ok a ∧ Overlaps (f a) := by
  cases x with
  | error e =>
    constructor
    · rintro ⟨path, start, h⟩
      exact .inl ⟨path, start, congrArg Except.error (Except.error.inj h)⟩
    · rintro (⟨path, start, h⟩ | ⟨a, h, -⟩)
      · exact ⟨path, start, congrArg Except.error (Except.error.inj h)⟩
      · cases h
  | ok a =>
    constructor
    · exact fun h => .inr ⟨a, rfl, h⟩
    · rintro (h | ⟨a', h, ha⟩)
      · exact absurd h (not_overlaps_ok a)
      · exact Except.ok.inj h ▸ ha

/-- An error of another sort is no overlap. -/
theorem not_overlaps_mapError {x : Except ε α} {f : ε → AdaptError}
    (hf : ∀ e path start, f e ≠ .edit (.overlap path start)) : ¬Overlaps (x.mapError f) := by
  rintro ⟨path, start, h⟩
  cases x with
  | error e => exact hf e path start (Except.error.inj h)
  | ok a => cases h

end Overlaps

/-- Edited sources are well formed, too. -/
theorem Source.Edited.wellFormed {s t : Source} (h : Edited s t) (hs : s.root.WellFormed) :
    t.root.WellFormed := by
  obtain ⟨edits, happly⟩ := h
  obtain rfl | hread := apply_cases happly
  · exact hs
  · exact wellFormed_root hread

namespace Draft

variable {b : Batch} {d : Draft} {edits : List Edit}

theorem overlaps_edit_iff (hnonneg : ∀ e ∈ edits, 0 ≤ e.start) :
    Overlaps (d.edit edits) ↔ ¬AllApart edits := by
  rw [← Edit.exists_overlap_iff (s := d.source) hnonneg, Overlaps, edit]
  cases d.source.apply edits <;> simp

theorem not_overlaps_edit (h : Applicable edits) : ¬Overlaps (d.edit edits) := by
  rw [overlaps_edit_iff h.nonneg, not_not]
  exact h.apart

/-- The first pass overlaps if its edits do. -/
theorem overlaps_normalizeDefaults_iff {site : Site}
    (hsite : Site.locate d.source.root d.plan.descriptor.sourcePath = .ok site) :
    Overlaps (normalizeDefaults b d) ↔
      ¬AllApart (Defaults.normalize b.naming.defaultStyle d.source site).edits := by
  unfold normalizeDefaults
  rw [hsite]
  exact overlaps_edit_iff (Defaults.nonneg_edits _ _ _)

variable (h : d.source.root.WellFormed)
include h

theorem not_overlaps_renameTestAttributes : ¬Overlaps (renameTestAttributes b d) := by
  unfold renameTestAttributes
  rw [overlaps_bind_iff, not_or, not_exists]
  refine ⟨not_overlaps_mapError fun _ _ _ => nofun, fun edits => ?_⟩
  rintro ⟨hedits, hoverlaps⟩
  exact not_overlaps_edit (TestAttributes.applicable_edits h (ok_of_mapError hedits)) hoverlaps

theorem not_overlaps_resolveSpecifiers : ¬Overlaps (resolveSpecifiers b d) := by
  unfold resolveSpecifiers
  rw [overlaps_bind_iff, not_or, not_exists]
  refine ⟨not_overlaps_mapError fun _ _ _ => nofun, fun r => ?_⟩
  rintro ⟨hedits, hoverlaps⟩
  exact not_overlaps_edit (Specifiers.applicable_edits h (ok_of_mapError hedits)) hoverlaps

theorem not_overlaps_renameIdentifiers : ¬Overlaps (renameIdentifiers b d) := by
  unfold renameIdentifiers
  rw [overlaps_bind_iff, not_or, not_exists]
  refine ⟨not_overlaps_mapError fun _ _ _ => nofun, fun edits => ?_⟩
  rintro ⟨hedits, hoverlaps⟩
  exact not_overlaps_edit (Identifiers.applicable_edits h (ok_of_mapError hedits)) hoverlaps

omit h in
theorem not_overlaps_addHeader : ¬Overlaps (addHeader b d) :=
  not_overlaps_edit (Header.applicable_edits _ _ _)

end Draft

namespace Batch

variable {b : Batch} {s : Source} {p : Plan}

/-- **The passes overlap if the first one does.**  What the later ones work on has been read. -/
theorem overlaps_adaptWith_iff (h : s.root.WellFormed) :
    Overlaps (b.adaptWith s p) ↔ Overlaps (Draft.normalizeDefaults b ⟨s, p⟩) := by
  unfold adaptWith
  rw [overlaps_bind_iff]
  refine or_iff_left ?_
  rintro ⟨d₁, hfirst, hlater⟩
  have h₁ := (Draft.normalizeDefaults_edited hfirst).wellFormed h
  rcases overlaps_bind_iff.mp hlater with hlater | ⟨d₂, hsecond, hlater⟩
  · exact Draft.not_overlaps_renameTestAttributes h₁ hlater
  have h₂ := (Draft.renameTestAttributes_edited hsecond).wellFormed h₁
  rcases overlaps_bind_iff.mp hlater with hlater | ⟨d₃, hthird, hlater⟩
  · exact Draft.not_overlaps_resolveSpecifiers h₂ hlater
  have h₃ := (Draft.resolveSpecifiers_edited hthird).wellFormed h₂
  rcases overlaps_bind_iff.mp hlater with hlater | ⟨d₄, hfourth, hlater⟩
  · exact Draft.not_overlaps_renameIdentifiers h₃ hlater
  · exact Draft.not_overlaps_addHeader hlater

/-- **Edits overlap in one case only.**  The trees of sources are well formed.  In such a tree, for
whatever component is found in it and whatever plan there is, the edits of each pass are apart, but
for those that move defaults into the parameter: these overlap exactly if the object has two entries
of one prop, both with static values, and the parameter binds the prop.  So that is when a source
cannot be adapted because of an overlap. -/
theorem overlap_iff_doubled :
    (∀ bytes path language s, Source.ofBytes bytes path language = .ok s → s.root.WellFormed) ∧
    ∀ (s : Source) (b : Batch) (p : Plan), s.root.WellFormed →
      (∀ edits, TestAttributes.edits b.naming s.root = .ok edits → AllApart edits) ∧
      (∀ p' edits, Specifiers.edits b p s.root = .ok (p', edits) → AllApart edits) ∧
      (∀ edits, Identifiers.edits p s.root = .ok edits → AllApart edits) ∧
      AllApart (Header.edits b.naming p s.bytes) ∧
      ∀ site, Site.locate s.root p.descriptor.sourcePath = .ok site →
        AllApart (Defaults.normalize .assigned s site).edits ∧
        (¬AllApart (Defaults.normalize .explicit s site).edits ↔ Defaults.Doubled s site) ∧
        ((∃ path start, b.adaptWith s p = .error (.edit (.overlap path start))) ↔
          b.naming.defaultStyle = .explicit ∧ Defaults.Doubled s site) := by
  refine ⟨fun _ _ _ _ => Source.wellFormed_root, fun s b p h => ⟨?_, ?_, ?_, ?_, ?_⟩⟩
  · exact fun edits hedits => (TestAttributes.applicable_edits h hedits).apart
  · exact fun p' edits hedits => (Specifiers.applicable_edits h hedits).apart
  · exact fun edits hedits => (Identifiers.applicable_edits h hedits).apart
  · exact (Header.applicable_edits _ _ _).apart
  · intro site hsite
    obtain ⟨hstands, hstatement⟩ := Site.placed_locate hsite
    have hassigned := Defaults.allApart_assigned h hstands hstatement
    have hexplicit := Defaults.allApart_explicit_iff h hstands
    refine ⟨hassigned, by rw [hexplicit, not_not], ?_⟩
    change Overlaps (b.adaptWith s p) ↔ _
    rw [overlaps_adaptWith_iff h, Draft.overlaps_normalizeDefaults_iff (d := ⟨s, p⟩) hsite]
    cases b.naming.defaultStyle with
    | explicit => simp [hexplicit]
    | assigned => simp [hassigned]

/-- A component whose object of defaults has two entries of one prop. -/
def twoEntries : String :=
  "export const B = (\x7b a, b \x7d) => <p/>;\nB.defaultProps = \x7b a: 1, b: 2, a: 3 \x7d;\n"

/-- The default of `a` is doubled, and the source cannot be adapted. -/
theorem twoEntries_overlap :
    ∃ s site d, Source.parse twoEntries "B.jsx" = .ok s ∧
      Site.locate s.root "B.jsx" = .ok site ∧ Defaults.Doubled s site ∧
      Descriptor.ofTree s.root s.language "B.jsx" = .ok d ∧
      ∃ path start, plain.adapt s d = .error (.edit (.overlap path start)) := by
  obtain ⟨s, site, hs, hsite, hdefaults⟩ := exists_of_read? twoEntries
    (fun s site => Defaults.normalize .explicit s site =
      ⟨[⟨20, 21, "a = 1"⟩, ⟨23, 24, "b = 2"⟩, ⟨20, 21, "a = 3"⟩, ⟨37, 76, ""⟩], []⟩)
    (by decide +kernel)
  obtain ⟨d, hd, hpath, -⟩ := Descriptor.exists_ofTree s.language hsite
  have hplan := plan_of_empty (b := plain) (d := d) rfl rfl (hpath ▸ targetOf_plain _)
  generalize hp : Plan.mk d _ _ _ _ _ _ _ = p at hplan
  have hsite' : Site.locate s.root p.descriptor.sourcePath = .ok site := by rw [← hp, hpath, hsite]
  obtain ⟨-, -, -, -, hall⟩ :=
    overlap_iff_doubled.2 s plain p (overlap_iff_doubled.1 _ _ _ s hs)
  obtain ⟨-, hexplicit, hadapt⟩ := hall site hsite'
  have hdoubled : Defaults.Doubled s site := by
    rw [← hexplicit, hdefaults]
    intro hapart
    rcases (List.pairwise_cons.mp hapart).1 ⟨20, 21, "a = 3"⟩ (by decide) with ⟨-, h⟩ | ⟨-, h⟩ <;>
      exact absurd h (by decide)
  obtain ⟨path, start, herror⟩ := hadapt.mpr ⟨rfl, hdoubled⟩
  refine ⟨s, site, d, hs, hsite, hdoubled, hd, path, start, ?_⟩
  rw [adapt, hplan]
  exact herror

end Batch
end Transplant
