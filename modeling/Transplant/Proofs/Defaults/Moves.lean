import Transplant.Proofs.Defaults.Rewriting

/-!
# Defaults that are moved to the parameter

What the object gives to a prop goes before its initializer, so moving an entry out of the object
puts it behind all other entries that can give the prop a value.  That is harmless if none of them
came before it, or if one that came after it always gives the prop a value.  To see that nothing
else will do, all literals are made to mean one thing and everything else another.

* `Moved`: the entries that are moved
* `MovesHarmless`: the condition
* `effective_moved`: the default of a prop whose entry has been moved
* `effective_probe`: a default that is lost
* `moves_preserve_iff`: no default changes exactly under the condition
-/

namespace Transplant
namespace Defaults

variable {V : Type}

/-! ## Which entries are moved -/

/-- The entry is a pair that is moved to the parameter: its value is static, its prop is bound. -/
structure Moved (pattern entry : Node) (p : Site.DefaultPair) : Prop where
  pair : asPair? entry = some p
  static : Expression.isStatic p.value = true
  bound : (lastMember? pattern.parts p.prop).isSome = true

theorem Moved.mayGive_eq {pattern entry : Node} {p : Site.DefaultPair} (h : Moved pattern entry p)
    (prop : String) : mayGive prop entry = (p.prop == prop) := by
  rw [mayGive, gives_of_asPair? h.pair, kind_of_asPair? h.pair]
  rfl

/-- The prop of an entry that is moved. -/
def movedProp? (pattern entry : Node) : Option String :=
  (asPair? entry).bind fun p =>
    if Expression.isStatic p.value && (lastMember? pattern.parts p.prop).isSome then some p.prop
    else none

theorem movedProp?_eq_some_iff {pattern entry : Node} {prop : String} :
    movedProp? pattern entry = some prop ↔ ∃ p, Moved pattern entry p ∧ p.prop = prop := by
  unfold movedProp?
  rw [Option.bind_eq_some_iff]
  constructor
  · rintro ⟨p, hpair, hmoved⟩
    split at hmoved
    · rename_i hboth
      rw [Bool.and_eq_true] at hboth
      exact ⟨p, ⟨hpair, hboth.1, hboth.2⟩, Option.some.inj hmoved⟩
    · cases hmoved
  · rintro ⟨p, hmoved, rfl⟩
    exact ⟨p, hmoved.pair, by simp [hmoved.static, hmoved.bound]⟩

/-- No two entries are moved to one member, and no entry is moved behind one that could give its
prop a value before, unless a later one always does. -/
def MovesHarmless (pattern : Node) (entries : List Node) : Prop :=
  (entries.filterMap (movedProp? pattern)).Nodup ∧
  ∀ i : Fin entries.length, ∀ prop ∈ movedProp? pattern (entries.get i),
    (∀ q ∈ entries.take i, mayGive prop q = false) ∨
      ∃ q ∈ entries.drop (i + 1), gives prop q = true

instance (pattern : Node) (entries : List Node) : Decidable (MovesHarmless pattern entries) :=
  inferInstanceAs (Decidable (_ ∧ _))

/-- The moved entries are for different props. -/
theorem pairwise_of_nodup {pattern : Node} {entries : List Node} :
    (entries.filterMap (movedProp? pattern)).Nodup ↔
      entries.Pairwise fun q q' =>
        ∀ p p', Moved pattern q p → Moved pattern q' p' → p.prop ≠ p'.prop := by
  rw [List.Nodup, List.pairwise_filterMap]
  refine List.Pairwise.iff fun q q' => ?_
  constructor
  · intro hne p p' hmoved hmoved'
    exact hne _ (movedProp?_eq_some_iff.mpr ⟨p, hmoved, rfl⟩) _
      (movedProp?_eq_some_iff.mpr ⟨p', hmoved', rfl⟩)
  · intro hne prop hprop prop' hprop'
    obtain ⟨p, hmoved, rfl⟩ := movedProp?_eq_some_iff.mp hprop
    obtain ⟨p', hmoved', rfl⟩ := movedProp?_eq_some_iff.mp hprop'
    exact hne p p' hmoved hmoved'

variable {pattern : Node} {defaults : Option Site.Defaults}

/-- The moves come from the entries of the object, one after the other. -/
theorem movesOf_eq (h : Tidy pattern defaults) :
    movesOf pattern defaults =
      ((entriesOf defaults).filterMap asPair?).map (moveOf (members pattern)) := by
  cases defaults with
  | none => rfl
  | some d => simp [movesOf, entriesOf, h.pairs d rfl]

/-- The member that an entry is moved to. -/
def goal? (pattern entry : Node) : Option (Node × Node) :=
  (asPair? entry).bind fun p => (moveOf (members pattern) p).rewrite?

theorem rewrite?_eq_some_iff {p : Site.DefaultPair} {x : Node × Node} :
    (moveOf (members pattern) p).rewrite? = some x ↔ Expression.isStatic p.value = true ∧
      lastMember? pattern.parts p.prop = some x.1 ∧ x.2 = withDefault x.1 p.value := by
  unfold moveOf
  rw [members_get?]
  cases hstatic : Expression.isStatic p.value with
  | false => simp [Move.rewrite?]
  | true =>
    cases lastMember? pattern.parts p.prop with
    | none => simp [Move.rewrite?]
    | some m =>
      obtain ⟨old, new⟩ := x
      simp only [Bool.not_true, Bool.false_eq_true, if_false, Move.rewrite?, Option.some.injEq,
        Prod.mk.injEq, true_and]
      constructor
      · rintro ⟨rfl, rfl⟩
        exact ⟨rfl, rfl⟩
      · rintro ⟨rfl, rfl⟩
        exact ⟨rfl, rfl⟩

theorem from?_eq_some_iff {p : Site.DefaultPair} {start : Nat} :
    (moveOf (members pattern) p).from? = some start ↔ Expression.isStatic p.value = true ∧
      (lastMember? pattern.parts p.prop).isSome = true ∧ p.pair.start = start := by
  unfold moveOf
  rw [members_get?]
  cases hstatic : Expression.isStatic p.value with
  | false => simp [Move.from?]
  | true => cases lastMember? pattern.parts p.prop <;> simp [Move.from?]

theorem goal?_eq_some_iff {entry : Node} {x : Node × Node} :
    goal? pattern entry = some x ↔ ∃ p, Moved pattern entry p ∧
      lastMember? pattern.parts p.prop = some x.1 ∧ x.2 = withDefault x.1 p.value := by
  unfold goal?
  rw [Option.bind_eq_some_iff]
  constructor
  · rintro ⟨p, hpair, hrewrite⟩
    obtain ⟨hstatic, hmember, hnew⟩ := rewrite?_eq_some_iff.mp hrewrite
    exact ⟨p, ⟨hpair, hstatic, by rw [hmember]; rfl⟩, hmember, hnew⟩
  · rintro ⟨p, hmoved, hmember, hnew⟩
    exact ⟨p, hmoved.pair, rewrite?_eq_some_iff.mpr ⟨hmoved.static, hmember, hnew⟩⟩

theorem members_explicit (h : Tidy pattern defaults) (site : Site) :
    (rewriting .explicit site pattern defaults).members =
      (entriesOf defaults).filterMap (goal? pattern) := by
  simp only [rewriting, movesOf_eq h, List.filterMap_map, List.filterMap_filterMap]
  rfl

/-- An entry is kept unless it is moved. -/
theorem kept_explicit (h : Tidy pattern defaults) (site : Site) :
    ∃ keep : Node → Bool,
      (rewriting .explicit site pattern defaults).kept = (entriesOf defaults).filter keep ∧
        ∀ q ∈ entriesOf defaults, keep q = false ↔ ∃ p, Moved pattern q p := by
  refine ⟨_, rfl, fun q hq => ?_⟩
  rw [Bool.not_eq_false', List.contains_iff_mem, movesOf_eq h]
  constructor
  · intro hmem
    obtain ⟨move, hmove, hfrom⟩ := List.mem_filterMap.mp hmem
    obtain ⟨p, hp, rfl⟩ := List.mem_map.mp hmove
    obtain ⟨q', hq', hpair⟩ := List.mem_filterMap.mp hp
    obtain ⟨hstatic, hbound, hstart⟩ := from?_eq_some_iff.mp hfrom
    rw [pair_of_asPair? hpair] at hstart
    obtain rfl := eq_of_start_eq h.entries hq' hq hstart
    exact ⟨p, hpair, hstatic, hbound⟩
  · rintro ⟨p, hmoved⟩
    refine List.mem_filterMap.mpr ⟨_, List.mem_map_of_mem (List.mem_filterMap.mpr
      ⟨q, hq, hmoved.pair⟩), from?_eq_some_iff.mpr ⟨hmoved.static, hmoved.bound, ?_⟩⟩
    rw [pair_of_asPair? hmoved.pair]

theorem fits_explicit (h : Tidy pattern defaults) (site : Site) :
    (rewriting .explicit site pattern defaults).Fits pattern.parts := by
  have hgoal : ∀ x ∈ (rewriting .explicit site pattern defaults).members, ∃ p : Site.DefaultPair,
      lastMember? pattern.parts p.prop = some x.1 ∧ x.2 = withDefault x.1 p.value := by
    intro x hx
    rw [members_explicit h site] at hx
    obtain ⟨q, -, hgoal⟩ := List.mem_filterMap.mp hx
    obtain ⟨p, -, hmember⟩ := goal?_eq_some_iff.mp hgoal
    exact ⟨p, hmember⟩
  constructor
  · intro x hx
    obtain ⟨p, hmember, -⟩ := hgoal x hx
    exact (lastMember?_cases hmember).1
  · intro x hx
    obtain ⟨p, hmember, hnew⟩ := hgoal x hx
    have hname := (lastMember?_cases hmember).2
    rw [hnew, memberName?_withDefault p.value hname, hname]

/-- No member is replaced twice exactly if no two entries for one prop are moved. -/
theorem once_explicit_iff (h : Tidy pattern defaults) (site : Site) :
    ((rewriting .explicit site pattern defaults).members.map (·.1.start)).Nodup ↔
      (entriesOf defaults).Pairwise fun q q' =>
        ∀ p p', Moved pattern q p → Moved pattern q' p' → p.prop ≠ p'.prop := by
  rw [members_explicit h site, List.Nodup, List.pairwise_map, List.pairwise_filterMap]
  refine List.Pairwise.iff fun q q' => ?_
  constructor
  · intro hne p p' hmoved hmoved' hprop
    obtain ⟨m, hm⟩ := Option.isSome_iff_exists.mp hmoved.bound
    refine hne (m, withDefault m p.value) (goal?_eq_some_iff.mpr ⟨p, hmoved, hm, rfl⟩)
      (m, withDefault m p'.value) (goal?_eq_some_iff.mpr ⟨p', hmoved', ?_, rfl⟩) rfl
    rw [← hprop, hm]
  · intro hne x hx x' hx' hstart
    obtain ⟨p, hmoved, hm, -⟩ := goal?_eq_some_iff.mp hx
    obtain ⟨p', hmoved', hm', -⟩ := goal?_eq_some_iff.mp hx'
    obtain ⟨hmem, hname⟩ := lastMember?_cases hm
    obtain ⟨hmem', hname'⟩ := lastMember?_cases hm'
    have hsame := eq_of_start_eq h.members hmem hmem' hstart
    rw [hsame, hname', Option.some.injEq] at hname
    exact hne p p' hmoved hmoved' hname.symm

/-- The initializer of a prop to which an entry is moved is the value of the entry. -/
theorem initializer_moved (h : Tidy pattern defaults) (I : Interpretation V) (site : Site)
    (honce : ((rewriting .explicit site pattern defaults).members.map (·.1.start)).Nodup)
    {q : Node} {p : Site.DefaultPair} (hq : q ∈ entriesOf defaults) (hmoved : Moved pattern q p) :
    I.initializer (pattern.parts.map (rewriting .explicit site pattern defaults).member) p.prop =
      some (I.value p.value) := by
  have hfits : (rewriting .explicit site pattern defaults).Fits pattern.parts :=
    fits_explicit h site
  obtain ⟨m, hm⟩ := Option.isSome_iff_exists.mp hmoved.bound
  have hmem : (m, withDefault m p.value) ∈ (rewriting .explicit site pattern defaults).members := by
    rw [members_explicit h site]
    exact List.mem_filterMap.mpr ⟨q, hq, goal?_eq_some_iff.mpr ⟨p, hmoved, hm, rfl⟩⟩
  have hnew := Rewriting.member_of_mem hfits h.members honce hmem
  rw [Interpretation.initializer, Rewriting.lastMember?_after hfits h.members, hm, Option.map_some,
    hnew, Option.bind_some, memberDefault?_withDefault p.value (lastMember?_cases hm).2,
    Option.map_some, I.value_inRole _ hmoved.static]

/-- The initializer of any other prop stays. -/
theorem initializer_not_moved (h : Tidy pattern defaults) (I : Interpretation V) (site : Site)
    {prop : String}
    (hnone : ∀ q ∈ entriesOf defaults, ∀ p, Moved pattern q p → p.prop ≠ prop) :
    I.initializer (pattern.parts.map (rewriting .explicit site pattern defaults).member) prop =
      I.initializer pattern.parts prop := by
  have hfits : (rewriting .explicit site pattern defaults).Fits pattern.parts :=
    fits_explicit h site
  rw [Interpretation.initializer, Rewriting.lastMember?_after hfits h.members]
  cases hm : lastMember? pattern.parts prop with
  | none => simp [Interpretation.initializer, hm]
  | some m =>
    obtain ⟨hmem, hname⟩ := lastMember?_cases hm
    obtain hreplaced | ⟨-, hself⟩ := Rewriting.member_cases hfits h.members hmem
    · -- a replaced member gets the value of an entry for the prop that it binds
      rw [members_explicit h site] at hreplaced
      obtain ⟨q, hq, hgoal⟩ := List.mem_filterMap.mp hreplaced
      obtain ⟨p, hmoved, hmember, -⟩ := goal?_eq_some_iff.mp hgoal
      have hname' := (lastMember?_cases hmember).2
      rw [hname, Option.some.injEq] at hname'
      exact absurd hname'.symm (hnone q hq p hmoved)
    · rw [Option.map_some, hself, Interpretation.initializer, hm]

/-- What the kept entries give to a prop for which one entry is moved: what the entries behind and
in front of it give. -/
theorem lastGiven_kept (h : Tidy pattern defaults) (I : Interpretation V) (site : Site)
    (hapart : (entriesOf defaults).Pairwise fun q q' =>
      ∀ p p', Moved pattern q p → Moved pattern q' p' → p.prop ≠ p'.prop)
    {l r : List Node} {q : Node} {p : Site.DefaultPair} (hsplit : entriesOf defaults = l ++ q :: r)
    (hmoved : Moved pattern q p) :
    I.lastGiven (rewriting .explicit site pattern defaults).entries p.prop =
      (I.lastGiven r p.prop).or (I.lastGiven l p.prop) := by
  obtain ⟨keep, hkept, hkeep⟩ := kept_explicit h site
  have hout : keep q = false := (hkeep q (by rw [hsplit]; simp)).mpr ⟨p, hmoved⟩
  have hgone : ∀ q' ∈ entriesOf defaults,
      (∀ p', Moved pattern q' p' → p'.prop ≠ p.prop) → keep q' = false →
        mayGive p.prop q' = false := by
    intro q' hq' hne hfalse
    obtain ⟨p', hmoved'⟩ := (hkeep q' hq').mp hfalse
    rw [hmoved'.mayGive_eq]
    exact beq_false_of_ne (hne p' hmoved')
  rw [hsplit, List.pairwise_append, List.pairwise_cons] at hapart
  obtain ⟨-, ⟨hright, -⟩, hleft⟩ := hapart
  rw [show (rewriting .explicit site pattern defaults).entries =
      (rewriting .explicit site pattern defaults).kept from List.append_nil _, hkept, hsplit,
    List.filter_append, List.filter_cons_of_neg (by simp [hout]), I.lastGiven_append,
    I.lastGiven_filter, I.lastGiven_filter]
  · intro q' hq'
    refine hgone q' (by rw [hsplit]; simp [hq']) fun p' hmoved' => ?_
    exact hleft q' hq' q List.mem_cons_self p' p hmoved' hmoved
  · intro q' hq'
    refine hgone q' (by rw [hsplit]; simp [hq']) fun p' hmoved' => ?_
    exact (hright q' hq' p p' hmoved hmoved').symm

/-- The default of a prop for which an entry is moved: first what stands behind the entry, then what
stands in front of it, and the value of the entry last. -/
theorem effective_moved (h : Tidy pattern defaults) (I : Interpretation V) (site : Site)
    (hapart : (entriesOf defaults).Pairwise fun q q' =>
      ∀ p p', Moved pattern q p → Moved pattern q' p' → p.prop ≠ p'.prop)
    {l r : List Node} {q : Node} {p : Site.DefaultPair} (hsplit : entriesOf defaults = l ++ q :: r)
    (hmoved : Moved pattern q p) :
    I.effective (pattern.parts.map (rewriting .explicit site pattern defaults).member)
        (rewriting .explicit site pattern defaults).entries p.prop =
      (I.lastGiven r p.prop).or ((I.lastGiven l p.prop).or (some (I.value p.value))) := by
  have hq : q ∈ entriesOf defaults := by
    rw [hsplit]
    exact List.mem_append_right l List.mem_cons_self
  rw [Interpretation.effective, lastGiven_kept h I site hapart hsplit hmoved,
    initializer_moved h I site ((once_explicit_iff h site).mpr hapart) hq hmoved, Option.or_assoc]

/-- The default of a prop for which there is an entry: first what stands behind the entry, then its
own value. -/
theorem effective_split (I : Interpretation V) {members l r : List Node} {q : Node}
    {p : Site.DefaultPair} (hsplit : entriesOf defaults = l ++ q :: r)
    (hpair : asPair? q = some p) :
    I.effective members (entriesOf defaults) p.prop =
      (I.lastGiven r p.prop).or (some (I.value p.value)) := by
  rw [Interpretation.effective, hsplit, I.lastGiven_append, I.lastGiven_cons, I.given_pair hpair,
    Option.or_assoc, Option.or_assoc, Option.some_or]

/-- A default is lost if its entry is moved behind one that could give its prop a value before, and
no later one always does. -/
theorem effective_probe (h : Tidy pattern defaults) (site : Site)
    (hapart : (entriesOf defaults).Pairwise fun q q' =>
      ∀ p p', Moved pattern q p → Moved pattern q' p' → p.prop ≠ p'.prop)
    {l r : List Node} {q : Node} {p : Site.DefaultPair} (hsplit : entriesOf defaults = l ++ q :: r)
    (hmoved : Moved pattern q p) (hfront : ∃ q' ∈ l, mayGive p.prop q' = true)
    (hback : ∀ q' ∈ r, gives p.prop q' = false) :
    (probe (l.map (·.start))).effective pattern.parts (entriesOf defaults) p.prop = some false ∧
      (probe (l.map (·.start))).effective
        (pattern.parts.map (rewriting .explicit site pattern defaults).member)
        (rewriting .explicit site pattern defaults).entries p.prop = some true := by
  -- a literal in front of the entry would have been moved to the same member
  have hliteral : ∀ q' ∈ l, ∀ p', asPair? q' = some p' → p'.prop = p.prop →
      Expression.isStatic p'.value = false := by
    intro q' hq' p' hpair' hprop
    rw [Bool.eq_false_iff]
    intro hstatic
    rw [hsplit, List.pairwise_append] at hapart
    exact hapart.2.2 q' hq' q List.mem_cons_self p' p
      ⟨hpair', hstatic, by rw [hprop]; exact hmoved.bound⟩ hmoved hprop
  have hfirst : (probe (l.map (·.start))).lastGiven l p.prop = some true :=
    lastGiven_probe (fun q' hq' => List.mem_map_of_mem hq') hliteral hfront
  have hlast : (probe (l.map (·.start))).lastGiven r p.prop = none := by
    have hstarts := h.entries
    rw [hsplit, List.map_append, List.nodup_append, List.map_cons] at hstarts
    refine lastGiven_probe_eq_none (fun q' hq' hmem => ?_) hback
    exact hstarts.2.2 _ hmem _ (List.mem_cons_of_mem _ (List.mem_map_of_mem hq')) rfl
  rw [effective_split _ hsplit hmoved.pair, effective_moved h _ site hapart hsplit hmoved, hfirst,
    hlast, value_probe _ hmoved.static]
  exact ⟨rfl, rfl⟩

/-- The default of a prop for which no entry is moved stays. -/
theorem effective_not_moved (h : Tidy pattern defaults) (I : Interpretation V) (site : Site)
    {prop : String}
    (hnone : ∀ q ∈ entriesOf defaults, ∀ p, Moved pattern q p → p.prop ≠ prop) :
    I.effective (pattern.parts.map (rewriting .explicit site pattern defaults).member)
        (rewriting .explicit site pattern defaults).entries prop =
      I.effective pattern.parts (entriesOf defaults) prop := by
  obtain ⟨keep, hkept, hkeep⟩ := kept_explicit h site
  rw [Interpretation.effective, Interpretation.effective, initializer_not_moved h I site hnone,
    show (rewriting .explicit site pattern defaults).entries =
      (rewriting .explicit site pattern defaults).kept from List.append_nil _, hkept,
    I.lastGiven_filter]
  intro q hq hfalse
  obtain ⟨p, hmoved⟩ := (hkeep q hq).mp hfalse
  rw [hmoved.mayGive_eq]
  exact beq_false_of_ne (hnone q hq p hmoved)

/-- **Moving defaults into the parameter changes none of them exactly if that is harmless.** -/
theorem moves_preserve_iff (h : Tidy pattern defaults) (site : Site) :
    ((rewriting .explicit site pattern defaults).Readable ∧
      ∀ (V : Type) (I : Interpretation V) (prop : String),
        I.effective (pattern.parts.map (rewriting .explicit site pattern defaults).member)
          (rewriting .explicit site pattern defaults).entries prop =
        I.effective pattern.parts (entriesOf defaults) prop) ↔
      MovesHarmless pattern (entriesOf defaults) := by
  constructor
  · rintro ⟨⟨honce, -⟩, hsame⟩
    have hapart := (once_explicit_iff h site).mp honce
    refine ⟨pairwise_of_nodup.mpr hapart, fun i prop hprop => ?_⟩
    obtain ⟨p, hmoved, rfl⟩ := movedProp?_eq_some_iff.mp hprop
    have hsplit : entriesOf defaults = (entriesOf defaults).take i ++
        (entriesOf defaults).get i :: (entriesOf defaults).drop (i + 1) := by
      rw [List.get_eq_getElem, List.getElem_cons_drop, List.take_append_drop]
    by_contra hneg
    simp only [not_or, not_forall, not_exists, not_and, Bool.not_eq_false, Bool.not_eq_true] at hneg
    obtain ⟨⟨q', hq', hmay⟩, hback⟩ := hneg
    obtain ⟨hbefore, hafter⟩ := effective_probe h site hapart hsplit hmoved ⟨q', hq', hmay⟩ hback
    rw [hsame, hbefore] at hafter
    cases hafter
  · rintro ⟨hnodup, hrank⟩
    have hapart := pairwise_of_nodup.mp hnodup
    have honce := (once_explicit_iff h site).mpr hapart
    refine ⟨⟨honce, fun e he => absurd he List.not_mem_nil⟩, fun V I prop => ?_⟩
    by_cases hmoves : ∃ q ∈ entriesOf defaults, ∃ p, Moved pattern q p ∧ p.prop = prop
    · obtain ⟨q, hq, p, hmoved, rfl⟩ := hmoves
      obtain ⟨l, r, hsplit⟩ := List.append_of_mem hq
      rw [effective_moved h I site hapart hsplit hmoved, effective_split I hsplit hmoved.pair]
      have hplace := hrank ⟨l.length, by simp [hsplit]⟩ p.prop
      simp only [List.get_eq_getElem, hsplit, List.getElem_append_right, Nat.le_refl, Nat.sub_self,
        List.getElem_cons_zero, List.take_left, List.drop_length_add_append, List.drop_succ_cons,
        List.drop_zero] at hplace
      rcases hplace (movedProp?_eq_some_iff.mpr ⟨p, hmoved, rfl⟩) with hfront | hback
      · rw [I.lastGiven_eq_none hfront, Option.none_or]
      · obtain ⟨v, hv⟩ := Option.isSome_iff_exists.mp (I.isSome_lastGiven hback)
        rw [hv, Option.some_or, Option.some_or]
    · exact effective_not_moved h I site fun q hq p hmoved hprop => hmoves ⟨q, hq, p, hmoved, hprop⟩

end Defaults
end Transplant
