import Transplant.Proofs.Defaults.Rewriting
import Transplant.Proofs.Defaults.Schema
import Transplant.Proofs.Defaults.Agreement

/-!
# The inventory of defaults

The schema of a component is told from little: from the props of its parameter, each with whether it
has a default, and from the names that its first object of defaults gives.  The `Inventory` has that
and what else the pass that moves defaults goes by, with all objects that are assigned to the
component, of which only the first one counts.

Moving defaults from one place to the other keeps the schema, with one exception.  When all entries
of the first object are moved to the parameter, the statement is deleted, and the object behind it
comes to count.  The schema is kept then only if that object gives no prop a default that it did not
have.  And the pass has something left to do then if that object has an entry that can be moved.

* `Inventory.after`: what the pass leaves
* `Inventory.Exposes`: another object comes to count, and shows
* `Inventory.schema_after_iff`: the schema is kept exactly if that does not happen
* `Inventory.Resumes`: another object comes to count, and is moved in turn
* `Inventory.settled_after_iff`: nothing is left to be moved exactly if that does not happen
* `Defaults.schema_inventory`: the schema of a component is that of its inventory
-/

namespace Transplant
namespace Defaults

open Props (mapLast withDefaults lastOf?)

/-! ## Inventories -/

/-- All that the schema of a component is told from, and what the pass that moves defaults makes of
it: whether an object can be assigned to the component, whether its parameter is taken apart, the
props of the parameter, each with whether its default is static, if it has one, and the objects of
defaults in order.  An entry of an object gives a prop, with a value that is static or not, or is
nothing that is known. -/
structure Inventory where
  carrier : Bool
  destructured : Bool
  own : List (String × Option Bool)
  objects : List (List (Option (String × Bool)))
deriving DecidableEq, Repr

namespace Inventory

variable (c : Inventory)

/-- The entries of the object that counts, which is the first one. -/
def first : List (Option (String × Bool)) := c.objects.head?.getD []

/-- The entries of the object behind it. -/
def next : List (Option (String × Bool)) := c.objects.tail.head?.getD []

/-- The props that the first object gives. -/
def given : List (String × Bool) := c.first.filterMap id

/-- The schema of the component. -/
def schema : List (String × Bool) :=
  withDefaults (c.given.map (·.1)) (c.own.map fun e => (e.1, e.2.isSome))

/-- The entry is moved to the parameter. -/
def moves (e : Option (String × Bool)) : Bool :=
  e.any fun e => e.2 && (c.own.map (·.1)).contains e.1

/-- All entries of the first object are moved, which is deleted then. -/
def Emptied : Prop := c.first ≠ [] ∧ ∀ e ∈ c.first, c.moves e = true

instance : Decidable c.Emptied := inferInstanceAs (Decidable (_ ∧ _))

/-- What is left after static values have been moved to the parameter. -/
def toParameter : Inventory :=
  if c.destructured then
    { c with
      own := mapLast (fun last name dflt =>
        if last && c.given.contains (name, true) then some true else dflt) c.own
      objects :=
        if c.Emptied then c.objects.tail
        else c.objects.modifyHead fun first => first.filter fun e => !c.moves e }
  else c

/-- The props whose static defaults are added to the object: those that it does not give yet. -/
def fresh : List (String × Bool) :=
  ((Table.ofPairs c.own).entries.filter fun e =>
    e.2 = some true && !(c.given.map (·.1)).contains e.1).map fun e => (e.1, true)

/-- What is left after static defaults have been moved to the object. -/
def toObject : Inventory :=
  if c.carrier && c.destructured then
    { c with
      own := mapLast (fun last _ dflt => if last && dflt == some true then none else dflt) c.own
      objects :=
        if c.fresh = [] then c.objects else (c.first ++ c.fresh.map some) :: c.objects.tail }
  else c

/-- What is left after the pass. -/
def after : DefaultStyle → Inventory
  | .explicit => c.toParameter
  | .assigned => c.toObject

/-- The object behind the first one comes to count, and gives a default to a prop that has none. -/
def Exposes : Prop :=
  c.destructured = true ∧ c.Emptied ∧
    ∃ e ∈ c.next.filterMap id, lastOf? c.schema e.1 ≠ some true

instance : Decidable c.Exposes := inferInstanceAs (Decidable (_ ∧ _))

/-- There is nothing to be moved. -/
def Settled : DefaultStyle → Prop
  | .explicit => c.destructured = true → ∀ e ∈ c.first, c.moves e = false
  | .assigned =>
    (c.carrier && c.destructured) = true → ∀ name, lastOf? c.own name ≠ some (some true)

/-- The object behind the first one comes to count, and has an entry that is moved to the
parameter. -/
def Resumes : Prop := c.destructured = true ∧ c.Emptied ∧ ∃ e ∈ c.next, c.moves e = true

instance : Decidable c.Resumes := inferInstanceAs (Decidable (_ ∧ _))

variable {c}

/-- Nothing is moved if the parameter is not taken apart. -/
theorem after_of_not_destructured (h : c.destructured = false) (style : DefaultStyle) :
    c.after style = c := by
  cases style <;> simp [after, toParameter, toObject, h]

theorem given_toObject (h : (c.carrier && c.destructured) = true) :
    c.toObject.given = c.given ++ c.fresh := by
  rw [toObject, if_pos h]
  by_cases hfresh : c.fresh = []
  · simp [given, first, hfresh]
  · simp [given, first, hfresh, List.filterMap_map]

theorem mem_fresh_iff {name : String} : name ∈ c.fresh.map (·.1) ↔
    lastOf? c.own name = some (some true) ∧ name ∉ c.given.map (·.1) := by
  have hentries (dflt : Option Bool) : (name, dflt) ∈ (Table.ofPairs c.own).entries ↔
      lastOf? c.own name = some dflt := by
    rw [Table.mem_entries_iff, Table.get?_ofPairs, lastOf?]
  rw [fresh, List.map_map, List.mem_map]
  constructor
  · rintro ⟨⟨_, dflt⟩, he, rfl⟩
    simp only [List.mem_filter, Bool.and_eq_true, decide_eq_true_eq, Bool.not_eq_true',
      ← Bool.not_eq_true, List.contains_iff_mem] at he
    obtain ⟨hentry, rfl, hnew⟩ := he
    exact ⟨(hentries _).mp hentry, hnew⟩
  · rintro ⟨hlast, hnew⟩
    refine ⟨(name, some true), List.mem_filter.mpr ⟨(hentries _).mpr hlast, ?_⟩, rfl⟩
    simpa using hnew

/-- The object makes up for the defaults that the parameter has lost. -/
theorem schema_toObject (c : Inventory) : c.toObject.schema = c.schema := by
  by_cases h : (c.carrier && c.destructured) = true
  · have hgiven := given_toObject h
    have hown : c.toObject.own = mapLast
        (fun last _ dflt => if last && dflt == some true then none else dflt) c.own := by
      rw [toObject, if_pos h]
    rw [schema, schema, hgiven, hown, List.map_append]
    refine Props.withDefaults_congr (fun name dflt => by simp) (fun name dflt hlast => ?_) ?_
    · -- a default that is lost is given by the object
      have hfresh : name ∈ c.fresh.map (·.1) ↔ dflt = some true ∧ name ∉ c.given.map (·.1) := by
        rw [mem_fresh_iff, hlast, Option.some.injEq]
      have hadded : (c.fresh.map (·.1)).contains name =
          (dflt == some true && !(c.given.map (·.1)).contains name) := by
        rw [Bool.eq_iff_iff, List.contains_iff_mem, hfresh]
        simp
      rw [List.contains_append, hadded]
      rcases dflt with _ | _ | _ <;> cases (c.given.map (·.1)).contains name <;> rfl
    · have hbound : ∀ name ∈ c.fresh.map (·.1), name ∈ c.own.map (·.1) := fun name hname =>
        Props.isSome_lastOf?_iff.mp (Option.isSome_of_eq_some (mem_fresh_iff.mp hname).1)
      rw [List.filter_append, List.append_right_eq_self]
      exact List.filter_eq_nil_iff.mpr fun name hname => by
        simpa using List.mem_map.mp (hbound name hname)
  · rw [toObject, if_neg h]

theorem own_toParameter (hdestructured : c.destructured = true) : c.toParameter.own =
    mapLast (fun last name dflt =>
      if last && c.given.contains (name, true) then some true else dflt) c.own := by
  rw [toParameter, if_pos hdestructured]

theorem objects_toParameter (hdestructured : c.destructured = true) : c.toParameter.objects =
    if c.Emptied then c.objects.tail
    else c.objects.modifyHead fun first => first.filter fun e => !c.moves e := by
  rw [toParameter, if_pos hdestructured]

/-- The entries of the first object that are not moved, if it is not deleted. -/
theorem first_toParameter (hdestructured : c.destructured = true) :
    c.toParameter.first = if c.Emptied then c.next else c.first.filter fun e => !c.moves e := by
  rw [first, objects_toParameter hdestructured]
  by_cases h : c.Emptied
  · simp [h, next]
  · rw [if_neg h, if_neg h]
    cases hobjects : c.objects <;> simp [first, hobjects]

/-- A schema with defaults for the props of the entries that are left is the one that there was. -/
theorem withDefaults_toParameter (hdestructured : c.destructured = true) :
    withDefaults ((c.given.filter fun e => !c.moves (some e)).map (·.1))
      (c.toParameter.own.map fun e => (e.1, e.2.isSome)) = c.schema := by
  rw [own_toParameter hdestructured, schema]
  have hmoves (e : String × Bool) :
      c.moves (some e) = (e.2 && (c.own.map (·.1)).contains e.1) := rfl
  refine Props.withDefaults_congr (fun name dflt => by simp) (fun name dflt hlast => ?_) ?_
  · have hbound : (c.own.map (·.1)).contains name = true :=
      List.contains_iff_mem.mpr (Props.isSome_lastOf?_iff.mp (Option.isSome_of_eq_some hlast))
    have hleft : ((c.given.filter fun e => !c.moves (some e)).map (·.1)).contains name =
        c.given.contains (name, false) := by
      rw [Bool.eq_iff_iff, List.contains_iff_mem, List.contains_iff_mem, List.mem_map]
      constructor
      · rintro ⟨⟨_, static⟩, he, rfl⟩
        obtain ⟨hmem, hkept⟩ := List.mem_filter.mp he
        rw [hmoves, hbound, Bool.and_true, Bool.not_eq_true'] at hkept
        exact hkept ▸ hmem
      · intro hmem
        exact ⟨_, List.mem_filter.mpr ⟨hmem, rfl⟩, rfl⟩
    have hgiven : (c.given.map (·.1)).contains name =
        (c.given.contains (name, true) || c.given.contains (name, false)) := by
      simp [Bool.or_comm]
    rw [hleft, hgiven]
    cases c.given.contains (name, true) <;> simp
  · rw [List.filter_map, List.filter_map, List.filter_filter]
    congr 1
    refine List.filter_congr fun e _ => ?_
    rw [Function.comp_apply, hmoves]
    cases (c.own.map (·.1)).contains e.1 <;> cases e.2 <;> rfl

/-- The object behind the one that is deleted comes to count. -/
theorem schema_emptied (hdestructured : c.destructured = true) (h : c.Emptied) :
    c.toParameter.schema = withDefaults ((c.next.filterMap id).map (·.1)) c.schema := by
  have hnone : (c.given.filter fun e => !c.moves (some e)) = [] := by
    refine List.filter_eq_nil_iff.mpr fun e he => ?_
    obtain ⟨entry, hentry, rfl⟩ := List.mem_filterMap.mp he
    simp [h.2 _ hentry]
  have hkept := withDefaults_toParameter hdestructured
  rw [hnone, List.map_nil, Props.withDefaults_nil] at hkept
  rw [schema, given, first_toParameter hdestructured, if_pos h, hkept]

theorem schema_not_emptied (hdestructured : c.destructured = true) (h : ¬c.Emptied) :
    c.toParameter.schema = c.schema := by
  rw [← withDefaults_toParameter hdestructured, schema, given, first_toParameter hdestructured,
    if_neg h, given, List.filter_filterMap, List.filterMap_filter]
  congr 3
  funext e
  cases e with
  | none => rw [id, ite_self, Option.filter_none]
  | some e => rw [id, Option.filter_some]

/-- **The pass keeps the schema of a component unless it exposes another object.** -/
theorem schema_after_iff (c : Inventory) (style : DefaultStyle) :
    (c.after style).schema = c.schema ↔ ¬(style = .explicit ∧ c.Exposes) := by
  cases style with
  | assigned => simp [after, schema_toObject]
  | explicit =>
    simp only [true_and, after]
    by_cases hdestructured : c.destructured = true
    · by_cases hemptied : c.Emptied
      · rw [schema_emptied hdestructured hemptied, Props.withDefaults_eq_self_iff]
        simp [Exposes, hdestructured, hemptied]
      · simp [schema_not_emptied hdestructured hemptied, Exposes, hemptied]
    · rw [toParameter, if_neg hdestructured]
      simp [Exposes, hdestructured]

/-- Entries are moved as before, because the props of the parameter are the same. -/
theorem moves_toParameter (hdestructured : c.destructured = true) (e : Option (String × Bool)) :
    c.toParameter.moves e = c.moves e := by
  rw [moves, moves, own_toParameter hdestructured, Props.names_mapLast]

/-- The last member of a prop has lost its static default. -/
theorem lastOf?_own_toObject (h : (c.carrier && c.destructured) = true) (name : String) :
    lastOf? c.toObject.own name ≠ some (some true) := by
  have hown : c.toObject.own = mapLast
      (fun last _ dflt => if last && dflt == some true then none else dflt) c.own := by
    rw [toObject, if_pos h]
  rw [hown, Props.lastOf?_mapLast]
  rcases lastOf? c.own name with _ | _ | _ | _ <;> decide

/-- **The pass leaves nothing to be moved unless another object comes to count that has an entry to
be moved.** -/
theorem settled_after_iff (c : Inventory) (style : DefaultStyle) :
    (c.after style).Settled style ↔ ¬(style = .explicit ∧ c.Resumes) := by
  cases style with
  | assigned =>
    refine iff_of_true (fun hboth => ?_) (by simp)
    by_cases h : (c.carrier && c.destructured) = true
    · exact lastOf?_own_toObject h
    · have hsame : c.after .assigned = c := if_neg h
      exact absurd (hsame ▸ hboth) h
  | explicit =>
    simp only [true_and, after, Settled]
    by_cases hdestructured : c.destructured = true
    · have hstill : c.toParameter.destructured = true := by
        rw [toParameter, if_pos hdestructured, hdestructured]
      simp only [hstill, true_imp_iff, moves_toParameter hdestructured,
        first_toParameter hdestructured]
      by_cases hemptied : c.Emptied
      · simp [Resumes, hdestructured, hemptied]
      · simp [Resumes, hemptied]
    · rw [toParameter, if_neg hdestructured]
      simp [Resumes, hdestructured]

end Inventory

/-! ## The inventory of a component -/

/-- What is known of an entry of an object. -/
def entryOf (entry : Node) : Option (String × Bool) :=
  (asPair? entry).map fun p => (p.prop, Expression.isStatic p.value)

/-- The props of some members of a pattern. -/
def ownOf (members : List Node) : List (String × Option Bool) :=
  members.filterMap fun m =>
    (memberName? m).map fun name => (name, (memberDefault? m).map Expression.isStatic)

/-- All that is assigned to a component as its defaults, in order. -/
def assigned (root : Node) (site : Site) : List Site.Defaults :=
  root.parts.filterMap (Site.defaultsIn? (site.name :: site.binding.toList))

/-- The inventory of a component that takes its parameter apart. -/
def inventoryOf (site : Site) (members : List Node) (objects : List (List Node)) : Inventory where
  carrier := site.binding.isSome && site.wrapper.isNone
  destructured := true
  own := ownOf members
  objects := objects.map (·.map entryOf)

/-- The inventory of a component.  One without parameters has no props, whatever is assigned to it.
Of a parameter that is a name nothing can be moved, so its defaults are not looked at. -/
def inventory (root : Node) (site : Site) : Inventory :=
  match Function.params site.callable with
  | [] => ⟨site.binding.isSome && site.wrapper.isNone, false, [], []⟩
  | param :: _ =>
    let objects := (assigned root site).map (·.object.parts)
    if (Function.pattern param).1.kind == .objectPattern then
      inventoryOf site (Function.pattern param).1.parts objects
    else
      { inventoryOf site [] objects with
        destructured := false
        own := (Props.ofParameter root site param).props.map fun p =>
          (p.name, if p.hasDefault then some false else none) }

theorem head?_assigned (root : Node) (site : Site) :
    (assigned root site).head? = Site.defaults? root site := by
  rw [assigned, List.head?_filterMap, Site.defaults?]

/-- The props of the first object are those that are merged into the schema. -/
theorem given_objects {root : Node} {site : Site} {c : Inventory}
    (h : c.objects = ((assigned root site).map (·.object.parts)).map (·.map entryOf)) :
    c.given.map (·.1) = (Props.defaultPairs root site).map (·.prop) := by
  rw [Inventory.given, Inventory.first, h, List.head?_map, List.head?_map, head?_assigned,
    Props.defaultPairs]
  cases hdefaults : Site.defaults? root site with
  | none => rfl
  | some d =>
    simp only [Option.map_some, Option.getD_some, pairs_of_defaults? hdefaults,
      List.map_filterMap, List.filterMap_map]
    refine List.filterMap_congr fun entry _ => ?_
    simp only [Function.comp_apply, entryOf, id, Option.map_map]
    rfl

/-- The props of a pattern, as the inventory has them. -/
theorem map_ownOf (types : List (String × Props.Typing)) (members : List Node) :
    (ownOf members).map (fun e => (e.1, e.2.isSome)) =
      Props.schema (Props.ofMembers types members) := by
  rw [ownOf, Props.schema, Props.ofMembers, List.map_filterMap, List.map_filterMap]
  refine List.filterMap_congr fun m _ => ?_
  cases memberName? m with
  | none => rfl
  | some name => simp [Props.make]

/-- **The schema of a component is told from its inventory.** -/
theorem schema_inventory (root : Node) (site : Site) :
    (inventory root site).schema = Props.schema (Props.extract root site).props := by
  unfold inventory
  cases hparams : Function.params site.callable with
  | nil =>
    rw [Props.extract, hparams]
    rfl
  | cons param rest =>
    rw [Props.props_extract hparams, Props.schema_foldl_mergeDefault]
    simp only
    split
    · rename_i hkind
      have hprops : (Props.ofParameter root site param).props =
          Props.ofMembers (Props.typesFor root site param) (Function.pattern param).1.parts := by
        simp only [Props.ofParameter, hkind, if_true, Props.map_snd_ofPattern]
        rfl
      rw [Inventory.schema, given_objects rfl, hprops, ← map_ownOf]
      rfl
    · rw [Inventory.schema, given_objects rfl]
      congr 1
      simp only [Props.schema, List.map_map]
      refine List.map_congr_left fun p _ => ?_
      cases hdefault : p.hasDefault <;> simp [hdefault]

/-! ## Components that take their parameter apart -/

/-- The object pattern of a component that takes its parameter apart. -/
def pattern? (site : Site) : Option Node :=
  ((Function.params site.callable).head?.map fun p => (Function.pattern p).1).filter
    (·.kind == .objectPattern)

theorem inventory_of_pattern? {root : Node} {site : Site} {pattern : Node}
    (h : pattern? site = some pattern) :
    inventory root site =
      inventoryOf site pattern.parts ((assigned root site).map (·.object.parts)) := by
  obtain ⟨hpattern, hkind⟩ := Option.filter_eq_some_iff.mp h
  obtain ⟨param, hparam, rfl⟩ := Option.map_eq_some_iff.mp hpattern
  obtain ⟨rest, hparams⟩ := List.head?_eq_some_iff.mp hparam
  unfold inventory
  rw [hparams]
  exact if_pos hkind

/-- Without a pattern nothing can be moved. -/
theorem destructured_of_pattern? {root : Node} {site : Site} (h : pattern? site = none) :
    (inventory root site).destructured = false := by
  unfold inventory
  cases hparams : Function.params site.callable with
  | nil => rfl
  | cons param rest =>
    have hkind : ((Function.pattern param).1.kind == .objectPattern) = false := by
      simpa [pattern?, hparams] using h
    simp [hkind]

end Defaults
end Transplant
