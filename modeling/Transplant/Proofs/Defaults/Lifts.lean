import Transplant.Proofs.Defaults.Rewriting

/-!
# Defaults that are lifted to the object

Moving an initializer into the object puts it before all entries that can give the prop a value.
That is harmless only if there are none, or if an entry for the prop stands there already, since
then nothing is added and the initializer did not count.

* `Lifted`: the defaults that are lifted
* `LiftsHarmless`: the condition
* `lifts_preserve_iff`: no default changes exactly under the condition
-/

namespace Transplant
namespace Defaults

variable {V : Type}

/-! ## Which defaults are lifted -/

/-- The prop has a static default in the parameter, and the component can carry an object. -/
structure Lifted (site : Site) (pattern : Node) (prop : String) (member value : Node) : Prop where
  bound : lastMember? pattern.parts prop = some member
  initial : memberDefault? member = some value
  static : Expression.isStatic value = true
  carrier : site.binding.isSome = true ∧ site.wrapper = none

/-- No default is lifted to an object that could give its prop a value already, except by an entry
for this very prop, and each default that is added can have a key. -/
def LiftsHarmless (site : Site) (pattern : Node) (defaults : Option Site.Defaults) : Prop :=
  ∀ e ∈ freshOf site pattern defaults,
    (∀ q ∈ entriesOf defaults, mayGive e.1 q = false) ∧ hasKey e.1 = true

instance (site : Site) (pattern : Node) (defaults : Option Site.Defaults) :
    Decidable (LiftsHarmless site pattern defaults) :=
  inferInstanceAs (Decidable (∀ e ∈ freshOf site pattern defaults, _))

variable {site : Site} {pattern : Node} {defaults : Option Site.Defaults}

theorem liftOf?_eq_lifted_iff {entry : String × Node} {prop : String} {member value : Node} :
    liftOf? site entry = some (.lifted prop member value) ↔
      entry = (prop, member) ∧ memberDefault? member = some value ∧
        Expression.isStatic value = true ∧ site.binding.isSome = true ∧ site.wrapper = none := by
  obtain ⟨name, m⟩ := entry
  unfold liftOf?
  rw [Option.map_eq_some_iff, Prod.mk.injEq]
  constructor
  · rintro ⟨default, hdefault, hlift⟩
    split at hlift
    · cases hlift
    · rename_i hstatic
      split at hlift
      · cases hlift
      · rename_i hcarrier
        obtain ⟨rfl, rfl, rfl⟩ := Lift.lifted.inj hlift
        simp only [Bool.or_eq_true, Option.isNone_iff_eq_none, not_or] at hcarrier
        exact ⟨⟨rfl, rfl⟩, hdefault, by simpa using hstatic,
          Option.isSome_iff_ne_none.mpr hcarrier.1, by simpa using hcarrier.2⟩
  · rintro ⟨⟨rfl, rfl⟩, hdefault, hstatic, hbinding, hwrapper⟩
    refine ⟨value, hdefault, ?_⟩
    rw [Option.isSome_iff_ne_none] at hbinding
    simp [hstatic, hbinding, hwrapper]

theorem mem_liftsOf_iff {prop : String} {member value : Node} :
    Lift.lifted prop member value ∈ liftsOf site pattern ↔
      Lifted site pattern prop member value := by
  simp only [liftsOf, List.mem_filterMap, liftOf?_eq_lifted_iff]
  constructor
  · rintro ⟨entry, hentry, rfl, hdefault, hstatic, hcarrier⟩
    rw [Table.mem_entries_iff, members_get?] at hentry
    exact ⟨hentry, hdefault, hstatic, hcarrier⟩
  · rintro ⟨hbound, hdefault, hstatic, hcarrier⟩
    refine ⟨(prop, member), ?_, rfl, hdefault, hstatic, hcarrier⟩
    rw [Table.mem_entries_iff, members_get?, hbound]

theorem mem_members_assigned_iff {x : Node × Node} :
    x ∈ (rewriting .assigned site pattern defaults).members ↔
      ∃ prop value, Lifted site pattern prop x.1 value ∧ x.2 = withoutDefault x.1 := by
  simp only [rewriting, List.mem_filterMap]
  constructor
  · rintro ⟨lift, hlift, hrewrite⟩
    cases lift with
    | lifted prop member value =>
      obtain rfl := Option.some.inj hrewrite
      rw [mem_liftsOf_iff] at hlift
      exact ⟨prop, value, hlift, rfl⟩
    | notStatic prop => cases hrewrite
    | noCarrier prop => cases hrewrite
  · rintro ⟨prop, value, hlifted, hnew⟩
    rw [← mem_liftsOf_iff] at hlifted
    refine ⟨_, hlifted, ?_⟩
    rw [Lift.rewrite?, ← hnew]

theorem mem_freshOf_iff (h : Tidy pattern defaults) {prop : String} {value : Node} :
    (prop, value) ∈ freshOf site pattern defaults ↔
      (∃ member, Lifted site pattern prop member value) ∧
        ∀ q ∈ entriesOf defaults, ∀ p, asPair? q = some p → p.prop ≠ prop := by
  have hvalue : (prop, value) ∈ (liftsOf site pattern).filterMap Lift.value? ↔
      ∃ member, Lifted site pattern prop member value := by
    rw [List.mem_filterMap]
    constructor
    · rintro ⟨lift, hlift, hentry⟩
      cases lift with
      | lifted prop' member value' =>
        obtain ⟨rfl, rfl⟩ := Prod.mk.inj (Option.some.inj hentry)
        rw [mem_liftsOf_iff] at hlift
        exact ⟨member, hlift⟩
      | notStatic prop => cases hentry
      | noCarrier prop => cases hentry
    · rintro ⟨member, hlifted⟩
      rw [← mem_liftsOf_iff] at hlifted
      exact ⟨_, hlifted, rfl⟩
  have hpresent : prop ∈ (defaults.map fun d => d.pairs.map (·.prop)).getD [] ↔
      ∃ q ∈ entriesOf defaults, ∃ p, asPair? q = some p ∧ p.prop = prop := by
    cases defaults with
    | none => simp [entriesOf]
    | some d =>
      simp only [Option.map_some, Option.getD_some, h.pairs d rfl, entriesOf, List.mem_map,
        List.mem_filterMap]
      constructor
      · rintro ⟨p, ⟨q, hq, hpair⟩, hprop⟩
        exact ⟨q, hq, p, hpair, hprop⟩
      · rintro ⟨q, hq, p, hpair, hprop⟩
        exact ⟨p, ⟨q, hq, hpair⟩, hprop⟩
  rw [freshOf, List.mem_filter, hvalue, Bool.not_eq_true', ← Bool.not_eq_true,
    List.contains_iff_mem, hpresent]
  simp only [not_exists, not_and]

theorem fits_assigned (h : Tidy pattern defaults) :
    (rewriting .assigned site pattern defaults).Fits pattern.parts := by
  constructor
  · intro x hx
    rw [mem_members_assigned_iff] at hx
    obtain ⟨prop, value, hlifted, -⟩ := hx
    exact (lastMember?_cases hlifted.bound).1
  · intro x hx
    rw [mem_members_assigned_iff] at hx
    obtain ⟨prop, value, hlifted, hnew⟩ := hx
    rw [hnew, memberName?_withoutDefault (h.regular _ (lastMember?_cases hlifted.bound).1)]

theorem entry_of_rewrite? {entry : String × Node} {lift : Lift} {x : Node × Node}
    (hlift : liftOf? site entry = some lift) (hx : lift.rewrite? = some x) : x.1 = entry.2 := by
  cases lift with
  | lifted prop member value =>
    rw [liftOf?_eq_lifted_iff] at hlift
    rw [← Option.some.inj hx, hlift.1]
  | notStatic prop => cases hx
  | noCarrier prop => cases hx

/-- No member is replaced twice, since each prop has one member that counts. -/
theorem once_assigned (h : Tidy pattern defaults) :
    ((rewriting .assigned site pattern defaults).members.map (·.1.start)).Nodup := by
  have hkeys : (members pattern).entries.Pairwise (·.1 ≠ ·.1) :=
    List.pairwise_map.mp (members pattern).distinct
  simp only [rewriting, liftsOf]
  rw [List.Nodup, List.pairwise_map, List.pairwise_filterMap, List.pairwise_filterMap]
  refine hkeys.imp_of_mem fun {e e'} he he' hne lift hlift lift' hlift' x hx x' hx' hstart => hne ?_
  rw [entry_of_rewrite? hlift hx, entry_of_rewrite? hlift' hx'] at hstart
  obtain ⟨hmem, hname⟩ :=
    lastMember?_cases ((members_get? pattern e.1) ▸ Table.mem_entries_iff.mp he)
  obtain ⟨hmem', hname'⟩ :=
    lastMember?_cases ((members_get? pattern e'.1) ▸ Table.mem_entries_iff.mp he')
  rw [eq_of_start_eq h.members hmem hmem' hstart, hname', Option.some.injEq] at hname
  exact hname.symm

theorem Lifted.unique {prop : String} {member member' value value' : Node}
    (h : Lifted site pattern prop member value) (h' : Lifted site pattern prop member' value') :
    member = member' ∧ value = value' := by
  have hmember : member = member' := Option.some.inj (h.bound.symm.trans h'.bound)
  subst hmember
  exact ⟨rfl, Option.some.inj (h.initial.symm.trans h'.initial)⟩

/-- A prop whose default is lifted has no initializer any more. -/
theorem initializer_lifted (h : Tidy pattern defaults) (I : Interpretation V) {prop : String}
    {member value : Node} (hlifted : Lifted site pattern prop member value) :
    I.initializer (pattern.parts.map (rewriting .assigned site pattern defaults).member) prop =
      none := by
  have hmem :
      (member, withoutDefault member) ∈ (rewriting .assigned site pattern defaults).members := by
    rw [mem_members_assigned_iff]
    exact ⟨prop, value, hlifted, rfl⟩
  have hnew := Rewriting.member_of_mem (fits_assigned h) h.members (once_assigned h) hmem
  rw [Interpretation.initializer, Rewriting.lastMember?_after (fits_assigned h) h.members,
    hlifted.bound, Option.map_some, hnew, Option.bind_some,
    memberDefault?_withoutDefault (h.regular _ (lastMember?_cases hlifted.bound).1),
    Option.map_none]

/-- The initializer of any other prop stays. -/
theorem initializer_not_lifted (h : Tidy pattern defaults) (I : Interpretation V) {prop : String}
    (hnone : ∀ member value, ¬Lifted site pattern prop member value) :
    I.initializer (pattern.parts.map (rewriting .assigned site pattern defaults).member) prop =
      I.initializer pattern.parts prop := by
  have hfits : (rewriting .assigned site pattern defaults).Fits pattern.parts := fits_assigned h
  rw [Interpretation.initializer, Rewriting.lastMember?_after hfits h.members]
  cases hm : lastMember? pattern.parts prop with
  | none => simp [Interpretation.initializer, hm]
  | some m =>
    obtain ⟨hmem, hname⟩ := lastMember?_cases hm
    obtain hreplaced | ⟨-, hself⟩ := Rewriting.member_cases hfits h.members hmem
    · rw [mem_members_assigned_iff] at hreplaced
      obtain ⟨prop', value, hlifted, -⟩ := hreplaced
      have hname' := (lastMember?_cases hlifted.bound).2
      rw [hname, Option.some.injEq] at hname'
      exact absurd (hname' ▸ hlifted) (hnone m value)
    · rw [Option.map_some, hself, Interpretation.initializer, hm]

theorem entries_assigned :
    (rewriting .assigned site pattern defaults).entries =
      entriesOf defaults ++ (freshOf site pattern defaults).map fun e => entryFor e.1 e.2 := rfl

theorem ne_empty_of_hasKey {prop : String} (h : hasKey prop = true) : prop ≠ "" := by
  rintro rfl
  exact absurd h (by decide)

/-- What an added entry gives. -/
theorem given_entryFor (I : Interpretation V) {name prop : String} {value : Node}
    (hkey : hasKey name = true) (hstatic : Expression.isStatic value = true) :
    I.given prop (entryFor name value) = if name = prop then some (I.value value) else none := by
  have hpair := asPair?_entryFor value (ne_empty_of_hasKey hkey)
  by_cases hname : name = prop
  · subst hname
    rw [if_pos rfl, I.given_pair hpair, I.value_inRole _ hstatic]
  · rw [if_neg hname]
    refine I.given_of_not_mayGive ?_
    rw [mayGive, gives_of_asPair? hpair, kind_of_asPair? hpair]
    exact beq_false_of_ne hname

/-- What the added entries give: to each of their props its own value. -/
theorem lastGiven_added (h : Tidy pattern defaults) (I : Interpretation V)
    (hkeys : ∀ e ∈ freshOf site pattern defaults, hasKey e.1 = true) {prop : String} {value : Node}
    (hfresh : (prop, value) ∈ freshOf site pattern defaults) :
    I.lastGiven ((freshOf site pattern defaults).map fun e => entryFor e.1 e.2) prop =
      some (I.value value) := by
  have hgiven : ∀ e ∈ freshOf site pattern defaults, I.given prop (entryFor e.1 e.2) =
      if e.1 = prop then some (I.value e.2) else none := by
    intro e he
    obtain ⟨⟨member, hlifted⟩, -⟩ := (mem_freshOf_iff h).mp he
    exact given_entryFor I (hkeys e he) hlifted.static
  refine I.lastGiven_eq_some (fun q hq y hy => ?_) ⟨_, List.mem_map_of_mem hfresh, ?_⟩
  · obtain ⟨e, he, rfl⟩ := List.mem_map.mp hq
    rw [hgiven e he] at hy
    split at hy
    · rename_i hname
      obtain ⟨⟨member, hlifted⟩, -⟩ := (mem_freshOf_iff h).mp hfresh
      obtain ⟨⟨member', hlifted'⟩, -⟩ := (mem_freshOf_iff h).mp he
      rw [← Option.some.inj hy, (hlifted.unique (hname ▸ hlifted')).2]
    · cases hy
  · rw [hgiven _ hfresh, if_pos rfl, Option.isSome_some]

theorem lastGiven_added_eq_none (h : Tidy pattern defaults) (I : Interpretation V)
    (hkeys : ∀ e ∈ freshOf site pattern defaults, hasKey e.1 = true) {prop : String}
    (hnone : ∀ value, (prop, value) ∉ freshOf site pattern defaults) :
    I.lastGiven ((freshOf site pattern defaults).map fun e => entryFor e.1 e.2) prop = none := by
  refine List.findSome?_eq_none_iff.mpr fun q hq => ?_
  obtain ⟨e, he, rfl⟩ := List.mem_map.mp (List.mem_reverse.mp hq)
  obtain ⟨⟨member, hlifted⟩, -⟩ := (mem_freshOf_iff h).mp he
  rw [given_entryFor I (hkeys e he) hlifted.static, if_neg]
  rintro rfl
  exact hnone e.2 he

/-- The default of a prop that has lost its initializer: the entry that is added gives it, or one
that is there already. -/
theorem effective_lifted (h : Tidy pattern defaults) (I : Interpretation V)
    (hharmless : LiftsHarmless site pattern defaults) {prop : String} {member value : Node}
    (hlifted : Lifted site pattern prop member value) :
    I.effective (pattern.parts.map (rewriting .assigned site pattern defaults).member)
        (rewriting .assigned site pattern defaults).entries prop =
      I.effective pattern.parts (entriesOf defaults) prop := by
  have hkeys : ∀ e ∈ freshOf site pattern defaults, hasKey e.1 = true :=
    fun e he => (hharmless e he).2
  rw [Interpretation.effective, Interpretation.effective, entries_assigned, I.lastGiven_append,
    initializer_lifted h I hlifted, Option.or_none]
  by_cases hpair : ∃ q ∈ entriesOf defaults, ∃ p, asPair? q = some p ∧ p.prop = prop
  · -- an entry for the prop is there, so nothing is added and the initializer never counted
    obtain ⟨q, hq, p, hasp, hprop⟩ := hpair
    have hgives : gives prop q = true := by rw [gives_of_asPair? hasp, hprop, beq_self_eq_true]
    obtain ⟨v, hv⟩ := Option.isSome_iff_exists.mp (I.isSome_lastGiven ⟨q, hq, hgives⟩)
    rw [lastGiven_added_eq_none h I hkeys, Option.none_or, hv, Option.some_or]
    intro value' hfresh
    exact ((mem_freshOf_iff h).mp hfresh).2 q hq p hasp hprop
  · have hnopair : ∀ q ∈ entriesOf defaults, ∀ p, asPair? q = some p → p.prop ≠ prop :=
      fun q hq p hasp hprop => hpair ⟨q, hq, p, hasp, hprop⟩
    have hfresh := (mem_freshOf_iff h).mpr ⟨⟨member, hlifted⟩, hnopair⟩
    rw [lastGiven_added h I hkeys hfresh, Option.some_or,
      I.lastGiven_eq_none (hharmless _ hfresh).1, Option.none_or, Interpretation.initializer,
      hlifted.bound, Option.bind_some, hlifted.initial, Option.map_some]

/-- **Moving defaults into the object changes none of them exactly if that is harmless.** -/
theorem lifts_preserve_iff (h : Tidy pattern defaults) :
    ((rewriting .assigned site pattern defaults).Readable ∧
      ∀ (V : Type) (I : Interpretation V) (prop : String),
        I.effective (pattern.parts.map (rewriting .assigned site pattern defaults).member)
          (rewriting .assigned site pattern defaults).entries prop =
        I.effective pattern.parts (entriesOf defaults) prop) ↔
      LiftsHarmless site pattern defaults := by
  constructor
  · rintro ⟨⟨-, hkeys⟩, hsame⟩ ⟨prop, value⟩ hfresh
    obtain ⟨⟨member, hlifted⟩, hnopair⟩ := (mem_freshOf_iff h).mp hfresh
    refine ⟨fun q hq => ?_, hkeys _ hfresh⟩
    rw [Bool.eq_false_iff]
    intro hmay
    have hbefore :
        (probe ((entriesOf defaults).map (·.start))).lastGiven (entriesOf defaults) prop =
          some true :=
      lastGiven_probe (fun q hq => List.mem_map_of_mem hq)
        (fun q hq p hpair hprop => absurd hprop (hnopair q hq p hpair)) ⟨q, hq, hmay⟩
    have hboth := hsame Bool (probe ((entriesOf defaults).map (·.start))) prop
    rw [Interpretation.effective, Interpretation.effective, entries_assigned,
      Interpretation.lastGiven_append, lastGiven_added h _ hkeys hfresh,
      value_probe _ hlifted.static, hbefore] at hboth
    cases hboth
  · intro hharmless
    have hkeys : ∀ e ∈ freshOf site pattern defaults, hasKey e.1 = true :=
      fun e he => (hharmless e he).2
    refine ⟨⟨once_assigned h, hkeys⟩, fun V I prop => ?_⟩
    by_cases hlifts : ∃ member value, Lifted site pattern prop member value
    · obtain ⟨member, value, hlifted⟩ := hlifts
      exact effective_lifted h I hharmless hlifted
    · have hnone : ∀ member value, ¬Lifted site pattern prop member value :=
        fun member value hlifted => hlifts ⟨member, value, hlifted⟩
      rw [Interpretation.effective, Interpretation.effective, entries_assigned, I.lastGiven_append,
        lastGiven_added_eq_none h I hkeys, Option.none_or, initializer_not_lifted h I hnone]
      intro value hfresh
      obtain ⟨⟨member, hlifted⟩, -⟩ := (mem_freshOf_iff h).mp hfresh
      exact hnone member value hlifted

end Defaults
end Transplant
