import Transplant.Proofs.Defaults.Inventory
import Transplant.Proofs.Defaults.Lifts
import Transplant.Proofs.Defaults.Moves

/-!
# Defaults that are where they should be

The inventory of a component tells whether the pass that moves defaults makes any edits.  The edits
are those of a rewriting, and it makes none if it replaces no member.  A member is replaced if an
entry of the object is moved to it, or if its default is lifted.

* `edits_eq_nil_iff`: no edits are made exactly if the inventory is settled
-/

namespace Transplant
namespace Defaults

open Props (lastOf?)

variable {site : Site} {pattern : Node} {defaults : Option Site.Defaults}

/-! ## The members that count -/

theorem lastMember?_cons (m : Node) (rest : List Node) (prop : String) :
    lastMember? (m :: rest) prop =
      (lastMember? rest prop).or (if memberName? m = some prop then some m else none) := by
  rw [lastMember?, List.reverse_cons, List.find?_append, lastMember?, List.find?_singleton]
  by_cases hname : memberName? m = some prop <;> simp [hname]

theorem ownOf_cons_of_none {m : Node} (h : memberName? m = none) (rest : List Node) :
    ownOf (m :: rest) = ownOf rest := by
  simp [ownOf, h]

theorem ownOf_cons_of_some {m : Node} {prop : String} (h : memberName? m = some prop)
    (rest : List Node) :
    ownOf (m :: rest) = (prop, (memberDefault? m).map Expression.isStatic) :: ownOf rest := by
  simp [ownOf, h]

/-- The last entry of a prop is that of the member that counts. -/
theorem lastOf?_ownOf (l : List Node) (prop : String) :
    lastOf? (ownOf l) prop =
      (lastMember? l prop).map fun m => (memberDefault? m).map Expression.isStatic := by
  induction l with
  | nil => rfl
  | cons m rest ih =>
    rw [lastMember?_cons]
    cases hname : memberName? m with
    | none => rw [ownOf_cons_of_none hname, ih, if_neg (Option.some_ne_none prop).symm, Option.or_none]
    | some name =>
      rw [ownOf_cons_of_some hname, Props.lastOf?_cons, ih, Option.map_or]
      by_cases hprop : prop = name
      · rw [if_pos hprop, if_pos (by rw [hprop]), Option.map_some]
      · rw [if_neg hprop, if_neg fun h => hprop (Option.some.inj h).symm, Option.map_none]

theorem mem_names_ownOf {l : List Node} {prop : String} :
    prop ∈ (ownOf l).map (·.1) ↔ (lastMember? l prop).isSome = true := by
  rw [← Props.isSome_lastOf?_iff, lastOf?_ownOf, Option.isSome_map]

theorem moves_entryOf_iff {objects : List (List Node)} {q : Node} :
    (inventoryOf site pattern.parts objects).moves (entryOf q) = true ↔
      ∃ p, Moved pattern q p := by
  have hbound (prop : String) :
      (((inventoryOf site pattern.parts objects).own.map (·.1)).contains prop = true ↔
        (lastMember? pattern.parts prop).isSome = true) := by
    rw [List.contains_iff_mem]
    exact mem_names_ownOf
  rw [Inventory.moves, entryOf, Option.any_map, Option.any_eq_true]
  simp only [Bool.and_eq_true, hbound]
  constructor
  · rintro ⟨p, hpair, hstatic, hbound⟩
    exact ⟨p, hpair, hstatic, hbound⟩
  · rintro ⟨p, hpair, hstatic, hbound⟩
    exact ⟨p, hpair, hstatic, hbound⟩

/-- The entries of the first object of an inventory are those of the object that counts. -/
theorem first_inventoryOf {objects : List (List Node)}
    (hhead : objects.head? = defaults.map (·.object.parts)) (members : List Node) :
    (inventoryOf site members objects).first = (entriesOf defaults).map entryOf := by
  rw [Inventory.first, inventoryOf, List.head?_map, hhead, entriesOf]
  cases defaults <;> rfl

/-! ## When no member is replaced -/

theorem Move.from?_eq_none_iff {m : Move} : m.from? = none ↔ m.rewrite? = none := by
  cases m <;> simp [Move.from?, Move.rewrite?]

theorem Lift.value?_eq_none_iff {l : Lift} : l.value? = none ↔ l.rewrite? = none := by
  cases l <;> simp [Lift.value?, Lift.rewrite?]

/-- If no member is replaced, the object stays as it is. -/
theorem objectEdits_rewriting {style : DefaultStyle} (bytes : Bytes)
    (h : (rewriting style site pattern defaults).members = []) :
    (rewriting style site pattern defaults).objectEdits bytes site defaults = [] := by
  have hkept : (rewriting style site pattern defaults).kept = entriesOf defaults := by
    cases style with
    | assigned => rfl
    | explicit =>
      have hstay : (movesOf pattern defaults).filterMap Move.from? = [] :=
        List.filterMap_eq_nil_iff.mpr fun m hm =>
          Move.from?_eq_none_iff.mpr (List.filterMap_eq_nil_iff.mp h m hm)
      simp [rewriting, hstay]
  have hadded : (rewriting style site pattern defaults).added = [] := by
    cases style with
    | explicit => rfl
    | assigned =>
      have hstay : (liftsOf site pattern).filterMap Lift.value? = [] :=
        List.filterMap_eq_nil_iff.mpr fun l hl =>
          Lift.value?_eq_none_iff.mpr (List.filterMap_eq_nil_iff.mp h l hl)
      simp [rewriting, freshOf, hstay]
  cases defaults with
  | none => exact if_pos hadded
  | some d => exact if_pos ⟨by rw [hkept]; rfl, hadded⟩

/-- No member is replaced if no entry is moved, and if no default is lifted. -/
theorem members_eq_nil_iff (style : DefaultStyle)
    (hpairs : ∀ d, defaults = some d → d.pairs = d.object.parts.filterMap asPair?)
    {objects : List (List Node)} (hhead : objects.head? = defaults.map (·.object.parts)) :
    (rewriting style site pattern defaults).members = [] ↔
      (inventoryOf site pattern.parts objects).Settled style := by
  cases style with
  | explicit =>
    have hmoves : (movesOf pattern defaults).filterMap Move.rewrite? =
        (entriesOf defaults).filterMap (goal? pattern) := by
      have hentries : (defaults.map (·.pairs)).getD [] =
          (entriesOf defaults).filterMap asPair? := by
        cases defaults with
        | none => rfl
        | some d => simp [entriesOf, hpairs d rfl]
      rw [movesOf, hentries, List.filterMap_map, List.filterMap_filterMap]
      rfl
    rw [show (rewriting .explicit site pattern defaults).members = _ from hmoves,
      List.filterMap_eq_nil_iff, Inventory.Settled, first_inventoryOf hhead, List.forall_mem_map]
    simp only [show (inventoryOf site pattern.parts objects).destructured = true from rfl,
      true_imp_iff]
    refine forall₂_congr fun q _ => ?_
    rw [← Bool.not_eq_true, moves_entryOf_iff, Option.eq_none_iff_forall_not_mem]
    constructor
    · rintro hnone ⟨p, hmoved⟩
      obtain ⟨m, hm⟩ := Option.isSome_iff_exists.mp hmoved.bound
      exact hnone (m, withDefault m p.value) (goal?_eq_some_iff.mpr ⟨p, hmoved, hm, rfl⟩)
    · intro hnone x hx
      obtain ⟨p, hmoved, -⟩ := goal?_eq_some_iff.mp hx
      exact hnone ⟨p, hmoved⟩
  | assigned =>
    have hcarrier : ((inventoryOf site pattern.parts objects).carrier &&
        (inventoryOf site pattern.parts objects).destructured) =
          (site.binding.isSome && site.wrapper.isNone) := Bool.and_true _
    rw [List.eq_nil_iff_forall_not_mem, Inventory.Settled, hcarrier, Bool.and_eq_true,
      Option.isNone_iff_eq_none]
    constructor
    · intro hnone hobject prop hlast
      obtain ⟨m, hm, hdefault⟩ := Option.map_eq_some_iff.mp ((lastOf?_ownOf _ _).symm.trans hlast)
      obtain ⟨value, hvalue, hstatic⟩ := Option.map_eq_some_iff.mp hdefault
      exact hnone (m, withoutDefault m)
        (mem_members_assigned_iff.mpr ⟨prop, value, ⟨hm, hvalue, hstatic, hobject⟩, rfl⟩)
    · intro hsettled x hx
      obtain ⟨prop, value, hlifted, -⟩ := mem_members_assigned_iff.mp hx
      refine hsettled hlifted.carrier prop ?_
      rw [show (inventoryOf site pattern.parts objects).own = ownOf pattern.parts from rfl,
        lastOf?_ownOf, hlifted.bound, Option.map_some, hlifted.initial, Option.map_some,
        hlifted.static]

/-- Without a pattern nothing is done. -/
theorem edits_of_pattern? (style : DefaultStyle) (source : Source) (h : pattern? site = none) :
    (normalize style source site).edits = [] := by
  unfold pattern? at h
  cases style with
  | assigned => simp only [normalize, toObject, h]
  | explicit =>
    simp only [normalize, toParameter, h]
    cases Site.defaults? source.root site with
    | none => rfl
    | some d =>
      simp only []
      split <;> rfl

/-- **The pass makes no edits exactly if nothing of the inventory is to be moved.** -/
theorem edits_eq_nil_iff (style : DefaultStyle) (source : Source) (site : Site) :
    (normalize style source site).edits = [] ↔ (inventory source.root site).Settled style := by
  cases hpattern : pattern? site with
  | none =>
    have hkept : (inventory source.root site).destructured = false :=
      destructured_of_pattern? hpattern
    refine iff_of_true (edits_of_pattern? style source hpattern) ?_
    cases style <;> simp [Inventory.Settled, hkept]
  | some pattern =>
    obtain ⟨hparam, hkind⟩ := Option.filter_eq_some_iff.mp hpattern
    obtain ⟨param, hhead, rfl⟩ := Option.map_eq_some_iff.mp hparam
    rw [normalize_edits style source hhead rfl (by simpa using hkind), Rewriting.edits,
      List.append_eq_nil_iff, List.map_eq_nil_iff, and_iff_left_of_imp (objectEdits_rewriting _),
      inventory_of_pattern? hpattern]
    exact members_eq_nil_iff style (fun d hd => pairs_of_defaults? hd)
      (by rw [List.head?_map, head?_assigned])

end Defaults
end Transplant
