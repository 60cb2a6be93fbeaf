import Transplant.Proofs.Defaults.Settled

/-!
# Members that are written

The edits of the pass that moves defaults stand for a `Rewriting` of the members of a pattern.  It
keeps the props that they bind.  Only members that count are replaced.  In one style a member gets
the default that is moved to it, and in the other one it loses its default if that is lifted.

* `Rewriting.Fits.name_member`: members go on binding their props
* `memberDefault?_explicit`, `memberDefault?_assigned`: the default of a member, for each style
* `value?_liftOf?`: the defaults that are lifted
-/

namespace Transplant

/-- Values that are put through a function come out of a table in the same order. -/
theorem Table.entries_ofPairs_map {α β : Type} (f : α → β) (pairs : List (String × α)) :
    (ofPairs (pairs.map fun e => (e.1, f e.2))).entries =
      (ofPairs pairs).entries.map fun e => (e.1, f e.2) := by
  have hput (key : String) (value : α) (l : List (String × α)) :
      putEntry key (f value) (l.map fun e => (e.1, f e.2)) =
        (putEntry key value l).map fun e => (e.1, f e.2) := by
    induction l with
    | nil => rfl
    | cons e rest ih =>
      rw [List.map_cons, putEntry, putEntry, ih]
      split <;> rfl
  suffices h : ∀ (t : Table α) (t' : Table β), t'.entries = (t.entries.map fun e => (e.1, f e.2)) →
      ((pairs.map fun e => (e.1, f e.2)).foldl (fun t e => t.put e.1 e.2) t').entries =
        (pairs.foldl (fun t e => t.put e.1 e.2) t).entries.map fun e => (e.1, f e.2) from
    h empty empty rfl
  induction pairs with
  | nil => exact fun _ _ h => h
  | cons e rest ih =>
    intro t t' h
    refine ih _ _ ?_
    show putEntry e.1 (f e.2) t'.entries = _
    rw [h, hput]
    rfl

namespace Defaults

variable {site : Site} {pattern : Node} {defaults : Option Site.Defaults}

theorem Rewriting.Fits.name_member {r : Rewriting} {members : List Node} (hfits : r.Fits members)
    (hmembers : (members.map (·.start)).Nodup) :
    ∀ m ∈ members, memberName? (r.member m) = memberName? m := by
  intro m hm
  obtain hmem | ⟨-, hself⟩ := member_cases hfits hmembers hm
  · exact hfits.name _ hmem
  · rw [hself]

/-- A static value of a bound prop is moved. -/
theorem mem_given_iff {prop : String} (hbound : (lastMember? pattern.parts prop).isSome = true) :
    (prop, true) ∈ (entriesOf defaults).filterMap entryOf ↔
      ∃ q ∈ entriesOf defaults, ∃ p, Moved pattern q p ∧ p.prop = prop := by
  rw [List.mem_filterMap]
  refine exists_congr fun q => and_congr_right fun _ => ?_
  rw [entryOf, Option.map_eq_some_iff]
  constructor
  · rintro ⟨p, hpair, hentry⟩
    obtain ⟨rfl, hstatic⟩ := Prod.mk.inj hentry
    exact ⟨p, ⟨hpair, hstatic, hbound⟩, rfl⟩
  · rintro ⟨p, hmoved, rfl⟩
    exact ⟨p, hmoved.pair, by rw [hmoved.static]⟩

/-- A member that counts has the default that is moved to it, or keeps its own. -/
theorem memberDefault?_explicit (h : Tidy pattern defaults) {prop : String} {m : Node}
    (hlast : lastMember? pattern.parts prop = some m) :
    (memberDefault? ((rewriting .explicit site pattern defaults).member m)).map
        Expression.isStatic =
      if (prop, true) ∈ (entriesOf defaults).filterMap entryOf then some true
      else (memberDefault? m).map Expression.isStatic := by
  have hfits : (rewriting .explicit site pattern defaults).Fits pattern.parts :=
    fits_explicit h site
  have hgiven : (prop, true) ∈ (entriesOf defaults).filterMap entryOf ↔ _ :=
    mem_given_iff (Option.isSome_of_eq_some hlast)
  obtain ⟨hmem, hname⟩ := lastMember?_cases hlast
  obtain hreplaced | ⟨hno, hself⟩ := Rewriting.member_cases hfits h.members hmem
  · rw [members_explicit h site] at hreplaced
    obtain ⟨q, hq, hgoal⟩ := List.mem_filterMap.mp hreplaced
    obtain ⟨p, hmoved, hmember, hnew⟩ := goal?_eq_some_iff.mp hgoal
    have hprop : p.prop = prop :=
      Option.some.inj ((lastMember?_cases hmember).2.symm.trans hname)
    have hdefault := memberDefault?_withDefault p.value hname
    rw [← show _ = withDefault m p.value from hnew] at hdefault
    rw [if_pos (hgiven.mpr ⟨q, hq, p, hmoved, hprop⟩), hdefault, Option.map_some, isStatic_inRole,
      hmoved.static]
  · rw [if_neg, hself]
    intro hmem
    obtain ⟨q, hq, p, hmoved, rfl⟩ := hgiven.mp hmem
    refine hno (m, withDefault m p.value) ?_ rfl
    rw [members_explicit h site]
    exact List.mem_filterMap.mpr ⟨q, hq, goal?_eq_some_iff.mpr ⟨p, hmoved, hlast, rfl⟩⟩

/-- A member that counts has lost its default if that is lifted, or keeps it. -/
theorem memberDefault?_assigned (h : Tidy pattern defaults) {prop : String} {m : Node}
    (hlast : lastMember? pattern.parts prop = some m) :
    (memberDefault? ((rewriting .assigned site pattern defaults).member m)).map
        Expression.isStatic =
      if (site.binding.isSome && site.wrapper.isNone) = true ∧
          (memberDefault? m).map Expression.isStatic = some true then none
      else (memberDefault? m).map Expression.isStatic := by
  have hfits : (rewriting .assigned site pattern defaults).Fits pattern.parts := fits_assigned h
  obtain ⟨hmem, hname⟩ := lastMember?_cases hlast
  obtain hreplaced | ⟨hno, hself⟩ := Rewriting.member_cases hfits h.members hmem
  · obtain ⟨prop', value, hlifted, hnew⟩ := mem_members_assigned_iff.mp hreplaced
    have hdefault := memberDefault?_withoutDefault (h.regular m hmem)
    rw [← show _ = withoutDefault m from hnew] at hdefault
    have hstatic : (memberDefault? m).map Expression.isStatic = some true := by
      rw [hlifted.initial, Option.map_some, hlifted.static]
    rw [if_pos ⟨by simp [hlifted.carrier.1, hlifted.carrier.2], hstatic⟩, hdefault, Option.map_none]
  · rw [if_neg, hself]
    rintro ⟨hcarrier, hstatic⟩
    obtain ⟨value, hvalue, hstatic⟩ := Option.map_eq_some_iff.mp hstatic
    rw [Bool.and_eq_true, Option.isNone_iff_eq_none] at hcarrier
    exact hno (m, withoutDefault m)
      (mem_members_assigned_iff.mpr ⟨prop, value, ⟨hlast, hvalue, hstatic, hcarrier⟩, rfl⟩) rfl

/-- A default is lifted if it is static and the component can carry an object. -/
theorem value?_liftOf? (site : Site) (entry : String × Node) :
    ((liftOf? site entry).bind Lift.value?).map (fun e => (e.1, true)) =
      if (site.binding.isSome && site.wrapper.isNone) = true ∧
        (memberDefault? entry.2).map Expression.isStatic = some true then some (entry.1, true)
      else none := by
  unfold liftOf?
  cases memberDefault? entry.2 with
  | none => simp
  | some default =>
    cases hstatic : Expression.isStatic default <;> cases site.binding <;> cases site.wrapper <;>
      simp [Lift.value?, hstatic]

end Defaults
end Transplant
