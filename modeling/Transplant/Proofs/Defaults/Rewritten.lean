import Transplant.Proofs.Defaults.Written

/-!
# The inventory of what is written

The edits of the pass that moves defaults stand for a `Rewriting` of the members of the pattern and
of the entries of the first object.  A component that consists of what the rewriting makes has the
inventory that the pass leaves.  So whether it has the schema of the original is told by
`Inventory.schema_after_iff`, and whether there is something left to be moved by
`Inventory.settled_after_iff`.

* `Rewriting.objects`: what becomes of the objects
* `inventoryOf_explicit`, `inventoryOf_assigned`: the inventory, for each style
* `Defaults.written_eq`: the inventory is the one that the pass leaves
* `Defaults.schema_written_iff`: when the schema is that of the original
* `Defaults.settled_written_iff`: when there is nothing left to be moved
-/

namespace Transplant
namespace Defaults

open Props (mapLast mapLast_cons)

/-- The objects after the edits of a rewriting (`Rewriting.objectEdits`).  The first one goes if it
has lost all its entries, and entries that there is no object for make one. -/
def Rewriting.objects (r : Rewriting) : List (List Node) → List (List Node)
  | [] => if r.added = [] then [] else [r.entries]
  | first :: later => if r.entries = [] ∧ first ≠ [] then later else r.entries :: later

/-! ## Members -/

variable {site : Site} {pattern : Node} {defaults : Option Site.Defaults}

/-- Members that go on binding the same props, whose defaults depend on whether they are the last of
their prop. -/
theorem ownOf_map {g : Node → Node} {f : Bool → String → Option Bool → Option Bool} {l : List Node}
    (hnodup : l.Nodup) (hname : ∀ m ∈ l, memberName? (g m) = memberName? m)
    (hlast : ∀ m prop, lastMember? l prop = some m →
      (memberDefault? (g m)).map Expression.isStatic =
        f true prop ((memberDefault? m).map Expression.isStatic))
    (hearlier : ∀ m ∈ l, ∀ prop, memberName? m = some prop → lastMember? l prop ≠ some m →
      (memberDefault? (g m)).map Expression.isStatic =
        f false prop ((memberDefault? m).map Expression.isStatic)) :
    ownOf (l.map g) = mapLast f (ownOf l) := by
  induction l with
  | nil => rfl
  | cons m rest ih =>
    obtain ⟨hm, hrest⟩ := List.nodup_cons.mp hnodup
    have htail : ownOf (rest.map g) = mapLast f (ownOf rest) := by
      refine ih hrest (fun m' hm' => hname m' (List.mem_cons_of_mem m hm')) ?_ ?_
      · intro m' prop hm'
        exact hlast m' prop (by rw [lastMember?_cons, hm', Option.some_or])
      · intro m' hm' prop hprop hne
        refine hearlier m' (List.mem_cons_of_mem m hm') prop hprop fun hsame => ?_
        rw [lastMember?_cons] at hsame
        obtain hlater | ⟨-, hhere⟩ := Option.or_eq_some_iff.mp hsame
        · exact hne hlater
        · obtain rfl : m = m' := by simpa using (Option.ite_none_right_eq_some.mp hhere).2
          exact hm hm'
    have hhead := hname m List.mem_cons_self
    cases hprop : memberName? m with
    | none =>
      rw [List.map_cons, ownOf_cons_of_none (hhead.trans hprop), htail, ownOf_cons_of_none hprop]
    | some prop =>
      rw [List.map_cons, ownOf_cons_of_some (hhead.trans hprop), htail, ownOf_cons_of_some hprop,
        mapLast_cons]
      congr 2
      cases hlater : lastMember? rest prop with
      | none =>
        have hnew : (!((ownOf rest).map (·.1)).contains prop) = true := by
          rw [Bool.not_eq_true', ← Bool.not_eq_true, List.contains_iff_mem, mem_names_ownOf, hlater]
          exact Bool.false_ne_true
        rw [hnew]
        exact hlast m prop (by rw [lastMember?_cons, hlater, if_pos hprop, Option.none_or])
      | some m' =>
        have hthere : (!((ownOf rest).map (·.1)).contains prop) = false := by
          rw [Bool.not_eq_false', List.contains_iff_mem, mem_names_ownOf, hlater]
          rfl
        rw [hthere]
        refine hearlier m List.mem_cons_self prop hprop fun hsame => hm ?_
        rw [lastMember?_cons, hlater, Option.some_or, Option.some.injEq] at hsame
        exact hsame ▸ (lastMember?_cases hlater).1

/-! ## From the object to the parameter -/

/-- What the first object of an inventory gives. -/
theorem given_inventoryOf {objects : List (List Node)}
    (hhead : objects.head? = defaults.map (·.object.parts)) (members : List Node) :
    (inventoryOf site members objects).given = (entriesOf defaults).filterMap entryOf := by
  rw [Inventory.given, first_inventoryOf hhead, List.filterMap_map]
  rfl

theorem nodup_parts (h : Tidy pattern defaults) : pattern.parts.Nodup :=
  List.Nodup.of_map _ h.members

theorem ownOf_explicit (h : Tidy pattern defaults) {objects : List (List Node)}
    (hhead : objects.head? = defaults.map (·.object.parts)) :
    ownOf (pattern.parts.map (rewriting .explicit site pattern defaults).member) =
      mapLast (fun last name dflt =>
        if last && (inventoryOf site pattern.parts objects).given.contains (name, true)
          then some true else dflt) (ownOf pattern.parts) := by
  have hfits : (rewriting .explicit site pattern defaults).Fits pattern.parts :=
    fits_explicit h site
  refine ownOf_map (nodup_parts h) (hfits.name_member h.members) ?_ ?_
  · intro m prop hlast
    rw [memberDefault?_explicit h hlast, given_inventoryOf hhead]
    simp
  · intro m hm prop hprop hne
    obtain hreplaced | ⟨-, hself⟩ := Rewriting.member_cases hfits h.members hm
    · -- only the member that counts is replaced
      rw [members_explicit h site] at hreplaced
      obtain ⟨q, -, hgoal⟩ := List.mem_filterMap.mp hreplaced
      obtain ⟨p, -, hmember, -⟩ := goal?_eq_some_iff.mp hgoal
      rw [(lastMember?_cases hmember).2, Option.some.injEq] at hprop
      exact absurd (hprop ▸ hmember) hne
    · rw [hself]
      rfl

theorem objects_explicit (h : Tidy pattern defaults) {objects : List (List Node)}
    (hhead : objects.head? = defaults.map (·.object.parts)) :
    ((rewriting .explicit site pattern defaults).objects objects).map (·.map entryOf) =
      (inventoryOf site pattern.parts objects).toParameter.objects := by
  obtain ⟨keep, hkept, hmoved⟩ := kept_explicit h site
  have hentries : (rewriting .explicit site pattern defaults).entries =
      (entriesOf defaults).filter keep := (List.append_nil _).trans hkept
  rw [Inventory.objects_toParameter rfl]
  cases objects with
  | nil =>
    rw [Rewriting.objects, show (rewriting .explicit site pattern defaults).added = [] from rfl]
    have hkeep : ¬(inventoryOf site pattern.parts []).Emptied := fun hemptied => hemptied.1 rfl
    rw [if_neg hkeep]
    rfl
  | cons first later =>
    have hfirst : entriesOf defaults = first := by
      rw [entriesOf, ← hhead]
      rfl
    have hkeep : ∀ q ∈ first,
        keep q = !(inventoryOf site pattern.parts (first :: later)).moves (entryOf q) := by
      intro q hq
      have hgone : keep q = false ↔
          (inventoryOf site pattern.parts (first :: later)).moves (entryOf q) = true :=
        (hmoved q (hfirst ▸ hq)).trans moves_entryOf_iff.symm
      rw [Bool.eq_iff_iff, ← Bool.not_eq_false, hgone, Bool.not_eq_true, Bool.not_eq_true']
    have hemptied : (inventoryOf site pattern.parts (first :: later)).Emptied ↔
        first.filter keep = [] ∧ first ≠ [] := by
      have hmap : (inventoryOf site pattern.parts (first :: later)).first = first.map entryOf := rfl
      rw [Inventory.Emptied, hmap, and_comm, List.forall_mem_map, List.filter_eq_nil_iff, ne_eq,
        List.map_eq_nil_iff]
      refine and_congr_left fun _ => forall₂_congr fun q hq => ?_
      rw [hkeep q hq, Bool.not_eq_true', Bool.not_eq_false]
    have hleft : (first.filter keep).map entryOf = (first.map entryOf).filter fun e =>
        !(inventoryOf site pattern.parts (first :: later)).moves e := by
      rw [List.filter_map]
      exact congrArg _ (List.filter_congr hkeep)
    rw [Rewriting.objects, hentries, hfirst]
    simp only [hemptied]
    split
    · rfl
    · rw [List.map_cons, hleft]
      rfl

/-- What the pass that moves defaults to the parameter writes has the inventory that it leaves. -/
theorem inventoryOf_explicit (h : Tidy pattern defaults) {objects : List (List Node)}
    (hhead : objects.head? = defaults.map (·.object.parts)) :
    inventoryOf site (pattern.parts.map (rewriting .explicit site pattern defaults).member)
        ((rewriting .explicit site pattern defaults).objects objects) =
      (inventoryOf site pattern.parts objects).toParameter := by
  rw [inventoryOf, ownOf_explicit h hhead, objects_explicit h hhead]
  rfl

/-! ## From the parameter to the object -/

theorem ownOf_assigned (h : Tidy pattern defaults) :
    ownOf (pattern.parts.map (rewriting .assigned site pattern defaults).member) =
      if (site.binding.isSome && site.wrapper.isNone) = true then
        mapLast (fun last _ dflt => if last && dflt == some true then none else dflt)
          (ownOf pattern.parts)
      else ownOf pattern.parts := by
  have hfits : (rewriting .assigned site pattern defaults).Fits pattern.parts := fits_assigned h
  have hown : ownOf (pattern.parts.map (rewriting .assigned site pattern defaults).member) =
      mapLast (fun last _ dflt =>
        if (site.binding.isSome && site.wrapper.isNone) && (last && dflt == some true) then none
        else dflt) (ownOf pattern.parts) := by
    refine ownOf_map (nodup_parts h) (hfits.name_member h.members) ?_ ?_
    · intro m prop hlast
      rw [memberDefault?_assigned h hlast]
      simp
    · intro m hm prop hprop hne
      obtain hreplaced | ⟨-, hself⟩ := Rewriting.member_cases hfits h.members hm
      · -- only the member that counts is replaced
        obtain ⟨prop', value, hlifted, -⟩ := mem_members_assigned_iff.mp hreplaced
        rw [(lastMember?_cases hlifted.bound).2, Option.some.injEq] at hprop
        exact absurd (hprop ▸ hlifted.bound) hne
      · rw [hself]
        simp
  rw [hown]
  split
  · simp [*]
  · rename_i hcarrier
    rw [Bool.not_eq_true] at hcarrier
    simp only [hcarrier, Bool.false_and, Bool.false_eq_true, if_false]
    exact Props.mapLast_self _

/-- The props of the members, as the table of those that count has them. -/
theorem entries_ownOf (pattern : Node) : (Table.ofPairs (ownOf pattern.parts)).entries =
    (members pattern).entries.map fun e =>
      (e.1, (memberDefault? e.2).map Expression.isStatic) := by
  rw [members, ← Table.entries_ofPairs_map fun m => (memberDefault? m).map Expression.isStatic,
    ownOf, List.map_filterMap]
  congr 2
  refine List.filterMap_congr fun m _ => ?_
  cases memberName? m <;> rfl

/-- The props whose defaults are added to the object. -/
theorem freshOf_inventoryOf (h : Tidy pattern defaults) {objects : List (List Node)}
    (hhead : objects.head? = defaults.map (·.object.parts)) :
    (freshOf site pattern defaults).map (fun e => (e.1, true)) =
      if (site.binding.isSome && site.wrapper.isNone) = true then
        (inventoryOf site pattern.parts objects).fresh
      else [] := by
  have hpresent : (defaults.map fun d => d.pairs.map (·.prop)).getD [] =
      (inventoryOf site pattern.parts objects).given.map (·.1) := by
    rw [given_inventoryOf hhead, List.map_filterMap]
    cases defaults with
    | none => rfl
    | some d =>
      rw [Option.map_some, Option.getD_some, h.pairs d rfl, List.map_filterMap]
      refine List.filterMap_congr fun q _ => ?_
      rw [entryOf, Option.map_map]
      rfl
  rw [freshOf, hpresent, liftsOf, List.filterMap_filterMap, List.filter_filterMap,
    List.map_filterMap, Inventory.fresh,
    show (inventoryOf site pattern.parts objects).own = ownOf pattern.parts from rfl, entries_ownOf]
  generalize (inventoryOf site pattern.parts objects).given.map (·.1) = present
  have hfilter (lifted : Option (String × Node)) :
      (lifted.filter fun e => !present.contains e.1).map (fun e => (e.1, true)) =
        (lifted.map fun e => (e.1, true)).filter fun e => !present.contains e.1 := by
    cases lifted with
    | none => rfl
    | some e =>
      rw [Option.filter_some, Option.map_some, Option.filter_some]
      split <;> rfl
  split
  · rename_i hobject
    rw [List.filter_map, List.map_map, ← List.filterMap_eq_map, List.filterMap_filter]
    refine List.filterMap_congr fun e _ => ?_
    rw [hfilter, value?_liftOf?]
    by_cases hstatic : (memberDefault? e.2).map Expression.isStatic = some true
    · simp [hobject, hstatic, Option.filter_some]
    · simp [hstatic]
  · rename_i hobject
    refine List.filterMap_eq_nil_iff.mpr fun e _ => ?_
    rw [hfilter, value?_liftOf?, if_neg fun hboth => hobject hboth.1]
    rfl

/-- An entry that is added gives its prop a static value. -/
theorem entryOf_entryFor (h : Tidy pattern defaults) {e : String × Node}
    (he : e ∈ freshOf site pattern defaults) (hkey : hasKey e.1 = true) :
    entryOf (entryFor e.1 e.2) = some (e.1, true) := by
  obtain ⟨⟨member, hlifted⟩, -⟩ := (mem_freshOf_iff h).mp he
  rw [entryOf, asPair?_entryFor e.2 (ne_empty_of_hasKey hkey), Option.map_some, isStatic_inRole,
    hlifted.static]

theorem objects_assigned (h : Tidy pattern defaults)
    (hkeys : ∀ e ∈ freshOf site pattern defaults, hasKey e.1 = true) {objects : List (List Node)}
    (hhead : objects.head? = defaults.map (·.object.parts)) :
    ((rewriting .assigned site pattern defaults).objects objects).map (·.map entryOf) =
      if (freshOf site pattern defaults).map (fun e => (e.1, true)) = [] then
        objects.map (·.map entryOf)
      else ((objects.head?.getD []).map entryOf ++
        ((freshOf site pattern defaults).map fun e => (e.1, true)).map some) ::
          objects.tail.map (·.map entryOf) := by
  have hadded : (rewriting .assigned site pattern defaults).added =
      freshOf site pattern defaults := rfl
  have hentries : (rewriting .assigned site pattern defaults).entries.map entryOf =
      (entriesOf defaults).map entryOf ++
        ((freshOf site pattern defaults).map fun e => (e.1, true)).map some := by
    rw [entries_assigned, List.map_append, List.map_map, List.map_map]
    exact congrArg _ (List.map_congr_left fun e he => entryOf_entryFor h he (hkeys e he))
  have hfirst : entriesOf defaults = objects.head?.getD [] := by rw [entriesOf, hhead]
  simp only [List.map_eq_nil_iff]
  cases objects with
  | nil =>
    rw [Rewriting.objects, hadded]
    split
    · rfl
    · rw [List.map_singleton, hentries, hfirst]
      rfl
  | cons first later =>
    have hkept : ¬((rewriting .assigned site pattern defaults).entries = [] ∧ first ≠ []) := by
      rintro ⟨hnone, hsome⟩
      rw [entries_assigned, List.append_eq_nil_iff, hfirst] at hnone
      exact hsome hnone.1
    rw [Rewriting.objects, if_neg hkept, List.map_cons, hentries, hfirst]
    split
    · rename_i hnone
      rw [hnone, List.map_nil, List.map_nil, List.append_nil]
      rfl
    · rfl

/-- What the pass that moves defaults to the object writes has the inventory that it leaves. -/
theorem inventoryOf_assigned (h : Tidy pattern defaults)
    (hkeys : ∀ e ∈ freshOf site pattern defaults, hasKey e.1 = true) {objects : List (List Node)}
    (hhead : objects.head? = defaults.map (·.object.parts)) :
    inventoryOf site (pattern.parts.map (rewriting .assigned site pattern defaults).member)
        ((rewriting .assigned site pattern defaults).objects objects) =
      (inventoryOf site pattern.parts objects).toObject := by
  have hfirst : (inventoryOf site pattern.parts objects).first =
      (objects.head?.getD []).map entryOf := by
    cases objects <;> rfl
  rw [inventoryOf, ownOf_assigned h, objects_assigned h hkeys hhead,
    freshOf_inventoryOf h hhead, ← hfirst, List.map_tail]
  by_cases hcarrier : (site.binding.isSome && site.wrapper.isNone) = true
  · have hboth : ((inventoryOf site pattern.parts objects).carrier &&
        (inventoryOf site pattern.parts objects).destructured) = true := by
      rw [inventoryOf, hcarrier]
      rfl
    rw [if_pos hcarrier, Inventory.toObject, if_pos hboth]
    simp only [if_pos hcarrier]
    rfl
  · have hnot : ((inventoryOf site pattern.parts objects).carrier &&
        (inventoryOf site pattern.parts objects).destructured) ≠ true := by
      intro hboth
      exact hcarrier (Bool.and_eq_true_iff.mp hboth).1
    rw [if_neg hcarrier, Inventory.toObject, if_neg hnot]
    simp only [if_neg hcarrier]
    rfl

/-- **What the pass writes has the inventory that it leaves.** -/
theorem inventoryOf_rewriting (style : DefaultStyle) (h : Tidy pattern defaults)
    (hread : (rewriting style site pattern defaults).Readable) {objects : List (List Node)}
    (hhead : objects.head? = defaults.map (·.object.parts)) :
    inventoryOf site (pattern.parts.map (rewriting style site pattern defaults).member)
        ((rewriting style site pattern defaults).objects objects) =
      (inventoryOf site pattern.parts objects).after style := by
  cases style with
  | explicit => exact inventoryOf_explicit h hhead
  | assigned => exact inventoryOf_assigned h hread.2 hhead

/-! ## Components -/

instance (r : Rewriting) : Decidable r.Readable := inferInstanceAs (Decidable (_ ∧ _))

/-- The members of the pattern and the entries of the object are as they are read: no two stand at
one place, and the members are regular.  What becomes of them in a style can be read, too. -/
def Orderly (style : DefaultStyle) (root : Node) (site : Site) : Prop :=
  ∀ pattern ∈ pattern? site,
    (pattern.parts.map (·.start)).Nodup ∧ (∀ m ∈ pattern.parts, regular m = true) ∧
    ((entriesOf (Site.defaults? root site)).map (·.start)).Nodup ∧
    (rewriting style site pattern (Site.defaults? root site)).Readable

instance (style : DefaultStyle) (root : Node) (site : Site) : Decidable (Orderly style root site) :=
  inferInstanceAs (Decidable (∀ pattern ∈ pattern? site, _ ∧ _))

/-- The inventory of what the pass writes: of the members and the objects that its rewriting makes,
if there is a pattern, and otherwise of what there was. -/
def written (style : DefaultStyle) (root : Node) (site : Site) : Inventory :=
  match pattern? site with
  | none => inventory root site
  | some pattern =>
    let r := rewriting style site pattern (Site.defaults? root site)
    inventoryOf site (pattern.parts.map r.member)
      (r.objects ((assigned root site).map (·.object.parts)))

/-- **What the pass writes for a component has the inventory that it leaves of the component.** -/
theorem written_eq {style : DefaultStyle} {root : Node} {site : Site}
    (h : Orderly style root site) : written style root site = (inventory root site).after style := by
  unfold written
  cases hpattern : pattern? site with
  | none =>
    rw [Inventory.after_of_not_destructured (destructured_of_pattern? hpattern)]
  | some pattern =>
    obtain ⟨hmembers, hregular, hentries, hread⟩ := h pattern hpattern
    have htidy : Tidy pattern (Site.defaults? root site) :=
      ⟨hmembers, hregular, hentries, fun d hd => pairs_of_defaults? hd⟩
    rw [inventory_of_pattern? hpattern]
    exact inventoryOf_rewriting style htidy hread (by rw [List.head?_map, head?_assigned])

/-- **What the pass writes for a component gives the schema of the component unless it exposes
another object of defaults.** -/
theorem schema_written_iff {style : DefaultStyle} {root : Node} {site : Site}
    (h : Orderly style root site) :
    (written style root site).schema = Props.schema (Props.extract root site).props ↔
      ¬(style = .explicit ∧ (inventory root site).Exposes) := by
  rw [written_eq h, ← schema_inventory]
  exact Inventory.schema_after_iff _ _

/-- **What the pass writes for a component leaves nothing to be moved unless another object of
defaults comes to count that has an entry to be moved.** -/
theorem settled_written_iff {style : DefaultStyle} {root : Node} {site : Site}
    (h : Orderly style root site) :
    (written style root site).Settled style ↔
      ¬(style = .explicit ∧ (inventory root site).Resumes) := by
  rw [written_eq h]
  exact Inventory.settled_after_iff _ _

end Defaults
end Transplant
