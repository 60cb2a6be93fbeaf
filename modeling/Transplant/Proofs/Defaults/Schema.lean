import Transplant.Proofs.Adapt.Reading
import Transplant.Proofs.Component.Schema

/-!
# The schema that defaults give

The schema of a component lists the names of its props, each with whether it has a default.  An
object of defaults gives a default to the last prop of each of its names, and names that are new
come last.  So the schema is told from that of the parameter and the names in the object, and their
values do not matter (`schema_foldl_mergeDefault`).

* `Props.mapLast`: a change of entries that knows which of them are the last of their name
* `Props.withDefaults`: a schema after defaults have been given to some names
* `withDefaults_eq_self_iff`: when that changes nothing
* `withDefaults_congr`: defaults that are moved to the object make no difference
-/

namespace Transplant
namespace Props

variable {α β γ : Type}

/-! ## The last entry of a name -/

/-- The value of the last entry of a name. -/
def lastOf? (l : List (String × α)) (name : String) : Option α := l.reverse.lookup name

theorem lastOf?_append (l r : List (String × α)) (name : String) :
    lastOf? (l ++ r) name = (lastOf? r name).or (lastOf? l name) := by
  rw [lastOf?, List.reverse_append, List.lookup_append, lastOf?, lastOf?]

theorem lastOf?_cons (e : String × α) (l : List (String × α)) (name : String) :
    lastOf? (e :: l) name = (lastOf? l name).or (if name = e.1 then some e.2 else none) := by
  have hsingle : lastOf? [e] name = if name = e.1 then some e.2 else none := by
    obtain ⟨first, a⟩ := e
    by_cases hname : name = first
    · simp [lastOf?, hname]
    · simp [lastOf?, List.lookup_cons, beq_false_of_ne hname, hname]
  rw [← List.singleton_append, lastOf?_append, hsingle]

theorem isSome_lastOf?_iff {l : List (String × α)} {name : String} :
    (lastOf? l name).isSome = true ↔ name ∈ l.map (·.1) := by
  induction l with
  | nil => simp [lastOf?]
  | cons e rest ih =>
    rw [lastOf?_cons, Option.isSome_or, Bool.or_eq_true, ih, List.map_cons, List.mem_cons, or_comm]
    refine or_congr_left ?_
    split <;> simp_all

/-! ## Changes of the last entries -/

/-- Changes the values of some named entries, each knowing whether it is the last of its name. -/
def mapLast (f : Bool → String → α → β) : List (String × α) → List (String × β)
  | [] => []
  | e :: rest => (e.1, f (!(rest.map (·.1)).contains e.1) e.1 e.2) :: mapLast f rest

@[simp] theorem mapLast_nil (f : Bool → String → α → β) : mapLast f [] = [] := rfl

theorem mapLast_cons (f : Bool → String → α → β) (e : String × α) (rest : List (String × α)) :
    mapLast f (e :: rest) =
      (e.1, f (!(rest.map (·.1)).contains e.1) e.1 e.2) :: mapLast f rest := rfl

@[simp] theorem names_mapLast (f : Bool → String → α → β) (l : List (String × α)) :
    (mapLast f l).map (·.1) = l.map (·.1) := by
  induction l with
  | nil => rfl
  | cons e rest ih => rw [mapLast_cons, List.map_cons, ih, List.map_cons]

theorem mapLast_mapLast (g : Bool → String → β → γ) (f : Bool → String → α → β)
    (l : List (String × α)) :
    mapLast g (mapLast f l) = mapLast (fun last name a => g last name (f last name a)) l := by
  induction l with
  | nil => rfl
  | cons e rest ih => rw [mapLast_cons, mapLast_cons, ih, names_mapLast, mapLast_cons]

theorem mapLast_append (f : Bool → String → α → β) (l r : List (String × α)) :
    mapLast f (l ++ r) =
      mapLast (fun last name => f (last && !(r.map (·.1)).contains name) name) l ++
        mapLast f r := by
  induction l with
  | nil => rfl
  | cons e rest ih =>
    rw [List.cons_append, mapLast_cons, ih, mapLast_cons, List.cons_append, List.map_append,
      List.contains_append, Bool.not_or]

theorem map_eq_mapLast (f : α → β) (l : List (String × α)) :
    (l.map fun e => (e.1, f e.2)) = mapLast (fun _ _ => f) l := by
  induction l with
  | nil => rfl
  | cons e rest ih => rw [List.map_cons, ih, mapLast_cons]

theorem mapLast_self (l : List (String × α)) : mapLast (fun _ _ a => a) l = l := by
  induction l with
  | nil => rfl
  | cons e rest ih => rw [mapLast_cons, ih]

theorem mapLast_congr {f g : Bool → String → α → β}
    (h : ∀ last name a, f last name a = g last name a) {l : List (String × α)} :
    mapLast f l = mapLast g l := by
  rw [funext fun last => funext fun name => funext fun a => h last name a]

/-- The last entry of a name is changed as the last one. -/
theorem lastOf?_mapLast (f : Bool → String → α → β) (l : List (String × α)) (name : String) :
    lastOf? (mapLast f l) name = (lastOf? l name).map (f true name) := by
  induction l with
  | nil => rfl
  | cons e rest ih =>
    rw [mapLast_cons, lastOf?_cons, lastOf?_cons, ih]
    cases hlater : lastOf? rest name with
    | some a => rfl
    | none =>
      rw [Option.map_none, Option.none_or, Option.none_or]
      by_cases hname : name = e.1
      · have hnew : (rest.map (·.1)).contains e.1 = false := by
          rw [← Bool.not_eq_true, List.contains_iff_mem, ← isSome_lastOf?_iff, ← hname, hlater]
          exact Bool.false_ne_true
        rw [if_pos hname, if_pos hname, hnew, hname]
        rfl
      · rw [if_neg hname, if_neg hname]
        rfl

/-- Two changes of the last entries are the same if they agree on them. -/
theorem mapLast_inj {f g : Bool → String → α → β} (h : ∀ name a, f false name a = g false name a)
    {l : List (String × α)} :
    mapLast f l = mapLast g l ↔
      ∀ name a, lastOf? l name = some a → f true name a = g true name a := by
  induction l with
  | nil => simp [lastOf?]
  | cons e rest ih =>
    rw [mapLast_cons, mapLast_cons, List.cons.injEq, Prod.mk.injEq, ih]
    simp only [lastOf?_cons, true_and]
    cases hlater : lastOf? rest e.1 with
    | none =>
      have hnew : e.1 ∉ rest.map (·.1) := by
        rw [← isSome_lastOf?_iff, hlater]
        exact Bool.false_ne_true
      have hlast : (!(rest.map (·.1)).contains e.1) = true := by simpa using hnew
      rw [hlast]
      constructor
      · rintro ⟨hhead, htail⟩ name a hname
        obtain hrest | ⟨-, hhere⟩ := Option.or_eq_some_iff.mp hname
        · exact htail name a hrest
        · obtain ⟨rfl, rfl⟩ : name = e.1 ∧ e.2 = a := by simpa using hhere
          exact hhead
      · intro hall
        refine ⟨hall e.1 e.2 (by simp [hlater]), fun name a hname => hall name a ?_⟩
        rw [hname, Option.some_or]
    | some later =>
      have hthere : e.1 ∈ rest.map (·.1) := by
        rw [← isSome_lastOf?_iff, hlater]
        rfl
      have hearlier : (!(rest.map (·.1)).contains e.1) = false := by simpa using hthere
      rw [hearlier]
      have hrest (name : String) :
          (lastOf? rest name).or (if name = e.1 then some e.2 else none) = lastOf? rest name := by
        by_cases hname : name = e.1
        · rw [hname, hlater, Option.some_or]
        · rw [if_neg hname, Option.or_none]
      simp only [hrest, h, true_and]

/-! ## Schemas -/

/-- A schema after a default has been given to the props of some names: the last prop of a name has
it, and new props come last. -/
def withDefaults (given : List String) (own : List (String × Bool)) : List (String × Bool) :=
  mapLast (fun last name dflt => dflt || last && given.contains name) own ++
    (given.filter fun name => !(own.map (·.1)).contains name).eraseDups.map (·, true)

theorem names_withDefaults (given : List String) (own : List (String × Bool)) :
    (withDefaults given own).map (·.1) = own.map (·.1) ++
      (given.filter fun name => !(own.map (·.1)).contains name).eraseDups := by
  rw [withDefaults, List.map_append, names_mapLast, List.map_map]
  congr 1
  exact List.map_id _

theorem withDefaults_nil (own : List (String × Bool)) : withDefaults [] own = own := by
  rw [withDefaults, List.filter_nil, List.eraseDups_nil, List.map_nil, List.append_nil]
  simp only [List.contains_nil, Bool.and_false, Bool.or_false]
  exact mapLast_self own

/-- Names that have a default do not get another one. -/
theorem mapLast_defaulted (f : Bool → String → Bool) (names : List String) :
    mapLast (fun last name dflt => dflt || f last name) (names.map (·, true)) =
      names.map (·, true) := by
  induction names with
  | nil => rfl
  | cons name rest ih => rw [List.map_cons, mapLast_cons, ih, Bool.true_or]

theorem eraseDups_concat (names : List String) (name : String) :
    (names ++ [name]).eraseDups =
      if name ∈ names then names.eraseDups else names.eraseDups ++ [name] := by
  rw [List.eraseDups_append, List.removeAll, List.filter_singleton]
  by_cases hmem : name ∈ names
  · simp [hmem]
  · simp [hmem, List.eraseDups_cons]

/-- One name more: its last prop gets the default, or it comes last. -/
theorem withDefaults_concat (given : List String) (name : String) (own : List (String × Bool)) :
    withDefaults (given ++ [name]) own =
      if name ∈ (withDefaults given own).map (·.1) then
        mapLast (fun last n dflt => dflt || last && n == name) (withDefaults given own)
      else withDefaults given own ++ [(name, true)] := by
  have hown : ∀ n dflt, lastOf? own n = some dflt → n ∈ own.map (·.1) := fun n dflt hlast =>
    isSome_lastOf?_iff.mp (Option.isSome_of_eq_some hlast)
  have hthere : name ∈ (withDefaults given own).map (·.1) ↔
      name ∈ own.map (·.1) ∨ name ∈ given ∧ name ∉ own.map (·.1) := by
    rw [names_withDefaults, List.mem_append, List.mem_eraseDups, List.mem_filter, Bool.not_eq_true',
      ← Bool.not_eq_true, List.contains_iff_mem]
  have hcontains (n : String) : (given ++ [name]).contains n = (given.contains n || n == name) := by
    rw [List.contains_append, List.contains_cons, List.contains_nil, Bool.or_false]
  simp only [hthere]
  simp only [withDefaults, List.filter_append, hcontains, mapLast_append, mapLast_mapLast,
    mapLast_defaulted]
  generalize own.map (·.1) = names at hown
  -- a prop of the parameter, a name that has been added before, or a new one
  by_cases hbound : name ∈ names
  · rw [if_pos (.inl hbound)]
    congr 1
    · refine mapLast_congr fun last n dflt => ?_
      by_cases hn : n = name
      · cases last <;> simp [hn, hbound]
      · simp [beq_false_of_ne hn]
    · simp [hbound]
  · by_cases hgiven : name ∈ given
    · rw [if_pos (.inr ⟨hgiven, hbound⟩)]
      congr 1
      · refine mapLast_congr fun last n dflt => ?_
        by_cases hn : n = name
        · cases last <;> simp [hn, hgiven]
        · simp [beq_false_of_ne hn]
      · simp [hbound, hgiven, eraseDups_concat]
    · rw [if_neg fun h => h.elim hbound fun hboth => hgiven hboth.1, List.append_assoc]
      congr 1
      · refine (mapLast_inj fun n dflt => by simp).mpr fun n dflt hlast => ?_
        have hn : n ≠ name := by
          rintro rfl
          exact hbound (hown n dflt hlast)
        simp [beq_false_of_ne hn]
      · simp [hbound, hgiven, eraseDups_concat]

/-- Nothing changes exactly if each name has its default already. -/
theorem withDefaults_eq_self_iff {given : List String} {own : List (String × Bool)} :
    withDefaults given own = own ↔ ∀ name ∈ given, lastOf? own name = some true := by
  have hlasts : mapLast (fun last name dflt => dflt || last && given.contains name) own = own ↔
      ∀ name dflt, lastOf? own name = some dflt → name ∈ given → dflt = true := by
    conv_lhs => rhs; rw [← mapLast_self own]
    rw [mapLast_inj fun name dflt => by simp]
    simp
  constructor
  · intro hsame name hname
    have hnames := congrArg (List.map (·.1)) hsame
    rw [names_withDefaults, List.append_right_eq_self] at hnames
    have hthere : name ∈ own.map (·.1) := by
      by_contra hnew
      refine absurd (List.mem_eraseDups.mpr (List.mem_filter.mpr ⟨hname, ?_⟩))
        (hnames ▸ List.not_mem_nil)
      rw [Bool.not_eq_true', ← Bool.not_eq_true, List.contains_iff_mem]
      exact hnew
    obtain ⟨dflt, hlast⟩ := Option.isSome_iff_exists.mp (isSome_lastOf?_iff.mpr hthere)
    have hnone : (given.filter fun name => !(own.map (·.1)).contains name).eraseDups = [] := hnames
    rw [withDefaults, hnone, List.map_nil, List.append_nil, hlasts] at hsame
    rw [hlast, hsame name dflt hlast hname]
  · intro hall
    have hnone : (given.filter fun name => !(own.map (·.1)).contains name) = [] := by
      refine List.filter_eq_nil_iff.mpr fun name hname => ?_
      rw [Bool.not_eq_true', Bool.not_eq_false, List.contains_iff_mem, ← isSome_lastOf?_iff,
        hall name hname, Option.isSome_some]
    rw [withDefaults, hnone, List.eraseDups_nil, List.map_nil, List.append_nil, hlasts]
    exact fun name dflt hlast hname => Option.some.inj (hlast.symm.trans (hall name hname))

/-- Defaults that are given to props make up for those that their last members have lost. -/
theorem withDefaults_congr {given given' : List String} {own : List (String × α)} {f : α → Bool}
    {g : Bool → String → α → α} (hearlier : ∀ name a, g false name a = a)
    (hlast : ∀ name a, lastOf? own name = some a →
      (f (g true name a) || given'.contains name) = (f a || given.contains name))
    (hnew : (given'.filter fun name => !(own.map (·.1)).contains name) =
      given.filter fun name => !(own.map (·.1)).contains name) :
    withDefaults given' ((mapLast g own).map fun e => (e.1, f e.2)) =
      withDefaults given (own.map fun e => (e.1, f e.2)) := by
  rw [map_eq_mapLast, map_eq_mapLast, mapLast_mapLast, withDefaults, withDefaults, names_mapLast,
    names_mapLast, hnew, mapLast_mapLast, mapLast_mapLast]
  congr 1
  exact (mapLast_inj fun name a => by simp [hearlier]).mpr fun name a h => hlast name a h

/-! ## The entries of an object -/

theorem schema_append (l r : List PropSpec) : schema (l ++ r) = schema l ++ schema r :=
  List.map_append

theorem names_schema (props : List PropSpec) : (schema props).map (·.1) = names props := by
  rw [schema, List.map_map]
  rfl

/-- The default of a name that is there goes to the last prop of that name. -/
theorem schema_replaceFirst {merged : PropSpec} (hmerged : merged.hasDefault = true)
    (props : List PropSpec) :
    schema (replaceFirst merged props).reverse =
      mapLast (fun last name dflt => dflt || last && name == merged.name)
        (schema props.reverse) := by
  induction props with
  | nil => rfl
  | cons p rest ih =>
    rw [replaceFirst, List.reverse_cons, schema_append, mapLast_append]
    split
    · rename_i hname
      rw [List.reverse_cons, schema_append]
      congr 1
      · refine (mapLast_self _).symm.trans (mapLast_congr fun last n dflt => ?_)
        by_cases hn : n = merged.name <;> simp [schema, beq_iff_eq.mp hname, hn]
      · simp [schema, mapLast_cons, hmerged, beq_iff_eq.mp hname]
    · rename_i hname
      rw [List.reverse_cons, schema_append, ih]
      congr 1
      · refine mapLast_congr fun last n dflt => ?_
        by_cases hn : n = merged.name
        · subst hn
          simp [schema, Ne.symm (show p.name ≠ merged.name by simpa using hname)]
        · simp [beq_false_of_ne hn]
      · simp [schema, mapLast_cons, hname]

theorem schema_mergeDefault (props : List PropSpec) (pair : Site.DefaultPair) :
    schema (mergeDefault props pair) =
      if pair.prop ∈ (schema props).map (·.1) then
        mapLast (fun last name dflt => dflt || last && name == pair.prop) (schema props)
      else schema props ++ [(pair.prop, true)] := by
  obtain ⟨merged, hmerged, heq⟩ := exists_mergeDefault props pair
  rw [heq, names_schema]
  split
  · rw [schema_replaceFirst hmerged.hasDefault, List.reverse_reverse, hmerged.name]
  · rw [schema_append, ← hmerged.name, ← hmerged.hasDefault]
    rfl

/-- The schema of the props of the parameter with the entries of an object merged in. -/
theorem schema_foldl_mergeDefault (own : List PropSpec) (pairs : List Site.DefaultPair) :
    schema (pairs.foldl mergeDefault own) = withDefaults (pairs.map (·.prop)) (schema own) := by
  induction pairs using List.reverseRecOn with
  | nil => exact (withDefaults_nil _).symm
  | append_singleton before pair ih =>
    rw [List.foldl_append, List.foldl_cons, List.foldl_nil, schema_mergeDefault, ih,
      List.map_append, List.map_singleton, withDefaults_concat]

end Props
end Transplant
