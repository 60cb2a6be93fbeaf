import Transplant.Component.Analysis
import Transplant.Proofs.Comments.Descriptor
import Mathlib.Data.List.Induction
import Mathlib.Data.List.Nodup

/-!
# The list of props

The props of a component are listed in two steps.  First come those of its parameter.  If this is a
pattern, they stand in it in order.  If it is a name, they are collected from all places where the
name is taken apart or a member of it is read: the places are sorted, and the first one counts for
each prop (`Props.Collected`).

Then the entries of `defaultProps` are gone through.  An entry replaces the prop of its name, which
keeps its place in the list, or adds a prop at the end.  What one entry does to the names is what
`insertNew` does (`Props.names_mergeDefault`), and it touches no prop of another name
(`Props.filter_mergeDefault`), so the last entry of a name tells what its prop is (`Props.Merged`).

* `Props.Reads`: where a prop is read
* `Props.collected_inOrder`: the props of a name are collected in order of their first places
* `Props.merged_foldl`: the entries of `defaultProps` are merged in
* `Props.schema_merged`: the list of props of a component
-/

namespace Transplant
namespace Props

/-- The names of some props. -/
def names (props : List PropSpec) : List String := props.map (·.name)

/-! ## Props of a named parameter -/

section Collected

variable {R S : Nat → PropSpec → Prop}

/-- The prop is read at a place, and a prop of its name at no earlier place. -/
structure FirstRead (R : Nat → PropSpec → Prop) (place : Nat) (p : PropSpec) : Prop where
  read : R place p
  first : ∀ place' q, R place' q → q.name = p.name → place ≤ place'

/-- The props that are read, each name once, as they are where they are first read, and in order of
these places. -/
structure Collected (R : Nat → PropSpec → Prop) (props : List PropSpec) : Prop where
  once : (names props).Nodup
  all : ∀ name, name ∈ names props ↔ ∃ place p, R place p ∧ p.name = name
  ordered : ∃ reads : List (Nat × PropSpec), reads.map (·.2) = props ∧
    (∀ r ∈ reads, FirstRead R r.1 r.2) ∧ reads.Pairwise fun r s => r.1 ≤ s.1

theorem FirstRead.congr {place : Nat} {p : PropSpec} (h : ∀ place p, R place p ↔ S place p)
    (hp : FirstRead R place p) : FirstRead S place p :=
  ⟨(h _ _).mp hp.read, fun place' q hq => hp.first place' q ((h _ _).mpr hq)⟩

theorem Collected.congr {props : List PropSpec} (h : ∀ place p, R place p ↔ S place p)
    (hprops : Collected R props) : Collected S props where
  once := hprops.once
  all name := by simp only [hprops.all, h]
  ordered := by
    obtain ⟨reads, hreads, hfirst, hordered⟩ := hprops.ordered
    exact ⟨reads, hreads, fun r hr => (hfirst r hr).congr h, hordered⟩

/-- The props so far, and one more unless its name is there. -/
def keepFirst (seen : List PropSpec) (read : Nat × PropSpec) : List PropSpec :=
  if seen.any (·.name == read.2.name) then seen else seen ++ [read.2]

theorem any_name_iff {props : List PropSpec} {name : String} :
    props.any (·.name == name) = true ↔ name ∈ names props := by
  simp [names]

/-- One more read, behind all others. -/
theorem Collected.keepFirst {l : List (Nat × PropSpec)} {read : Nat × PropSpec}
    {props : List PropSpec} (h : Collected (fun place p => (place, p) ∈ l) props)
    (hlast : ∀ r ∈ l, r.1 ≤ read.1) :
    Collected (fun place p => (place, p) ∈ l ++ [read]) (keepFirst props read) := by
  have hfirst {place : Nat} {p : PropSpec}
      (hp : FirstRead (fun place p => (place, p) ∈ l) place p) :
      FirstRead (fun place p => (place, p) ∈ l ++ [read]) place p := by
    refine ⟨List.mem_append_left _ hp.read, fun place' q hq hname => ?_⟩
    rcases List.mem_append.mp hq with hq | hq
    · exact hp.first place' q hq hname
    · obtain rfl := List.mem_singleton.mp hq
      exact hlast _ hp.read
  have hall (name : String) : (∃ place p, (place, p) ∈ l ++ [read] ∧ p.name = name) ↔
      name ∈ names props ∨ name = read.2.name := by
    rw [h.all]
    constructor
    · rintro ⟨place, p, hp, rfl⟩
      rcases List.mem_append.mp hp with hp | hp
      · exact .inl ⟨place, p, hp, rfl⟩
      · exact .inr (List.mem_singleton.mp hp ▸ rfl)
    · rintro (⟨place, p, hp, rfl⟩ | rfl)
      · exact ⟨place, p, List.mem_append_left _ hp, rfl⟩
      · exact ⟨read.1, read.2, List.mem_append_right _ List.mem_cons_self, rfl⟩
  obtain ⟨reads, rfl, hreads, hordered⟩ := h.ordered
  unfold Props.keepFirst
  by_cases hseen : (reads.map (·.2)).any (·.name == read.2.name) = true
  · rw [if_pos hseen]
    rw [any_name_iff] at hseen
    refine ⟨h.once, fun name => ?_, reads, rfl, fun r hr => hfirst (hreads r hr), hordered⟩
    rw [hall]
    exact ⟨.inl, fun hor => hor.elim id fun hname => hname ▸ hseen⟩
  · rw [if_neg hseen]
    rw [any_name_iff] at hseen
    have hread : FirstRead (fun place p => (place, p) ∈ l ++ [read]) read.1 read.2 := by
      refine ⟨List.mem_append_right _ List.mem_cons_self, fun place' q hq hname => ?_⟩
      rcases List.mem_append.mp hq with hq | hq
      · exact absurd ((h.all _).mpr ⟨place', q, hq, hname⟩) hseen
      · obtain rfl := List.mem_singleton.mp hq
        exact Nat.le_refl _
    refine ⟨?_, fun name => ?_, reads ++ [read], List.map_append, fun r hr => ?_, ?_⟩
    · rw [names, List.map_append]
      exact List.Nodup.append h.once (List.nodup_singleton _) (List.disjoint_singleton.mpr hseen)
    · rw [hall, names, List.map_append, List.mem_append, List.map_singleton, List.mem_singleton,
        ← names]
    · rcases List.mem_append.mp hr with hr | hr
      · exact hfirst (hreads r hr)
      · exact List.mem_singleton.mp hr ▸ hread
    · refine List.pairwise_append.mpr ⟨hordered, List.pairwise_singleton _ _, fun r hr _ hs => ?_⟩
      exact List.mem_singleton.mp hs ▸ hlast r (hreads r hr).read

theorem collected_foldl {l : List (Nat × PropSpec)} (h : l.Pairwise fun r s => r.1 ≤ s.1) :
    Collected (fun place p => (place, p) ∈ l) (l.foldl keepFirst []) := by
  induction l using List.reverseRecOn with
  | nil => exact ⟨.nil, fun name => by simp [names], [], rfl, nofun, .nil⟩
  | append_singleton l read ih =>
    rw [List.pairwise_append] at h
    rw [List.foldl_append, List.foldl_cons, List.foldl_nil]
    exact (ih h.1).keepFirst fun r hr => h.2.2 r hr read List.mem_cons_self

theorem inOrder_of_pairwise {found : List (Nat × PropSpec)}
    (h : found.Pairwise fun r s => r.1 ≤ s.1) : inOrder found = found.foldl keepFirst [] := by
  have hsorted : found.mergeSort (fun a b => a.1 ≤ b.1) = found :=
    List.mergeSort_of_pairwise (h.imp decide_eq_true)
  rw [inOrder, hsorted]
  rfl

/-- **The props of a name are collected in order of the places where they are first read.** -/
theorem collected_inOrder (found : List (Nat × PropSpec)) :
    Collected (fun place p => (place, p) ∈ found) (inOrder found) := by
  have hsorted : (found.mergeSort fun a b => a.1 ≤ b.1).Pairwise fun r s => r.1 ≤ s.1 :=
    (List.pairwise_mergeSort (by simp; omega) (by simp; omega) found).imp of_decide_eq_true
  exact (collected_foldl hsorted).congr fun _ _ => List.mem_mergeSort

end Collected

/-- A node at which a prop held by the name `param` is read: a declaration that takes the name
apart, where each member of its pattern is a place, or a member of the name. -/
inductive Reads (types : List (String × Typing)) (param : String) (n : Node) :
    Nat → PropSpec → Prop
  | taken (name value member : Node) (prop : String) (dflt : Option Node) :
      n.kind = .variableDeclarator → n.child? .name = some name → name.kind = .objectPattern →
      n.child? .value = some value → value.unwrap.text = param → member ∈ name.parts →
      ofMember? member = some (prop, dflt) → Reads types param n member.start (make types prop dflt)
  | member (object property : Node) :
      n.kind = .memberExpression → n.child? .object = some object → object.kind = .identifier →
      object.text = param → n.child? .property = some property →
      Reads types param n n.start (make types property.text none)

section Parameter

variable {types : List (String × Typing)} {param : String} {n : Node} {place : Nat} {p : PropSpec}

theorem mem_ofPattern_iff {pattern : Node} :
    (place, p) ∈ ofPattern types pattern ↔ ∃ member ∈ pattern.parts, ∃ prop dflt,
      ofMember? member = some (prop, dflt) ∧ place = member.start ∧ p = make types prop dflt := by
  simp only [ofPattern, List.mem_filterMap, Option.map_eq_some_iff, Prod.exists, Prod.mk.injEq]
  simp only [eq_comm]

theorem mem_readAt_iff : (place, p) ∈ (readAt types param n).1 ↔ Reads types param n place p := by
  constructor
  · intro h
    unfold readAt at h
    split at h
    · rename_i hkind
      split at h
      · rename_i name _ hname hunwrapped
        obtain ⟨value, hvalue, rfl⟩ := Option.map_eq_some_iff.mp hunwrapped
        split at h
        · rename_i htest
          rw [Bool.and_eq_true, beq_iff_eq, beq_iff_eq] at htest
          obtain ⟨m, hm, prop, dflt, hof, rfl, rfl⟩ := mem_ofPattern_iff.mp h
          exact .taken name value m prop dflt hkind hname htest.1 hvalue htest.2 hm hof
        · cases h
      · cases h
    · rename_i hkind
      split at h
      · rename_i object property hobject hproperty
        split at h
        · rename_i htest
          rw [Bool.and_eq_true, beq_iff_eq, beq_iff_eq] at htest
          obtain ⟨rfl, rfl⟩ := Prod.mk.inj (List.mem_singleton.mp h)
          exact .member object property hkind hobject htest.1 htest.2 hproperty
        · cases h
      · cases h
    all_goals first | cases h | (split at h <;> cases h)
  · rintro (⟨name, value, m, prop, dflt, hkind, hname, hpattern, hvalue, htext, hm, hof⟩ |
      ⟨object, property, hkind, hobject, hidentifier, htext, hproperty⟩)
    · have hmem : (m.start, make types prop dflt) ∈ ofPattern types name :=
        mem_ofPattern_iff.mpr ⟨m, hm, prop, dflt, hof, rfl, rfl⟩
      simpa [readAt, hkind, hname, hvalue, hpattern, htext] using hmem
    · simp [readAt, hkind, hobject, hproperty, hidentifier, htext]

end Parameter

/-! ## Entries of `defaultProps` -/

section Merge

variable {props : List PropSpec} {pair : Site.DefaultPair} {p merged : PropSpec}

/-- The prop is what the entry makes of it: it has the default of the object, as written. -/
structure FromPair (pair : Site.DefaultPair) (p : PropSpec) : Prop where
  name : p.name = pair.prop
  hasDefault : p.hasDefault = true
  required : p.required = false
  defaultSource : p.defaultSource = some .defaultsObject
  defaultText : p.defaultText = some pair.value.text

theorem names_replaceFirst : names (replaceFirst merged props) = names props := by
  induction props with
  | nil => rfl
  | cons q rest ih =>
    rw [replaceFirst]
    split
    · rename_i hname
      rw [names, List.map_cons, ← beq_iff_eq.mp hname]
      rfl
    · rw [names, List.map_cons, ← names, ih]
      rfl

theorem filter_replaceFirst {f : String → Bool} (hf : f merged.name = false) :
    (replaceFirst merged props).filter (f ·.name) = props.filter (f ·.name) := by
  induction props with
  | nil => rfl
  | cons q rest ih =>
    rw [replaceFirst]
    split
    · rename_i hname
      rw [List.filter_cons_of_neg (by rw [hf]; exact nofun),
        List.filter_cons_of_neg (by rw [beq_iff_eq.mp hname, hf]; exact nofun)]
    · rw [List.filter_cons, List.filter_cons, ih]

/-- Where no name comes twice, no prop of the name is left beside the new one. -/
theorem eq_of_mem_replaceFirst (h : (names props).Nodup) (hp : p ∈ replaceFirst merged props)
    (hname : p.name = merged.name) : p = merged := by
  induction props with
  | nil => cases hp
  | cons q rest ih =>
    have hnodup := List.nodup_cons.mp h
    rw [replaceFirst] at hp
    split at hp
    · rename_i hq
      rcases List.mem_cons.mp hp with rfl | hp
      · rfl
      · exact absurd (List.mem_map.mpr ⟨p, hp, hname.trans (beq_iff_eq.mp hq).symm⟩) hnodup.1
    · rename_i hq
      rcases List.mem_cons.mp hp with rfl | hp
      · exact absurd (beq_iff_eq.mpr hname) hq
      · exact ih hnodup.2 hp

/-- An entry replaces the prop of its name, or adds one at the end. -/
theorem exists_mergeDefault (props : List PropSpec) (pair : Site.DefaultPair) :
    ∃ merged, FromPair pair merged ∧ mergeDefault props pair =
      if pair.prop ∈ names props then (replaceFirst merged props.reverse).reverse
      else props ++ [merged] := by
  unfold mergeDefault
  simp only [any_name_iff]
  exact ⟨_, ⟨rfl, rfl, rfl, rfl, rfl⟩, rfl⟩

theorem names_mergeDefault :
    names (mergeDefault props pair) = insertNew (names props) pair.prop := by
  obtain ⟨merged, hmerged, heq⟩ := exists_mergeDefault props pair
  rw [heq, insertNew]
  simp only [List.contains_iff_mem]
  split
  · rw [names, List.map_reverse, ← names, names_replaceFirst, names, List.map_reverse,
      List.reverse_reverse, names]
  · rw [names, List.map_append, List.map_singleton, hmerged.name, names]

theorem filter_mergeDefault {f : String → Bool} (hf : f pair.prop = false) :
    (mergeDefault props pair).filter (f ·.name) = props.filter (f ·.name) := by
  obtain ⟨merged, hmerged, heq⟩ := exists_mergeDefault props pair
  have hf' : f merged.name = false := hmerged.name ▸ hf
  rw [heq]
  split
  · rw [List.filter_reverse, filter_replaceFirst hf', List.filter_reverse, List.reverse_reverse]
  · rw [List.filter_append, List.filter_singleton, hf']
    exact List.append_nil _

theorem fromPair_of_mem_mergeDefault (h : (names props).Nodup) (hp : p ∈ mergeDefault props pair)
    (hname : p.name = pair.prop) : FromPair pair p := by
  obtain ⟨merged, hmerged, heq⟩ := exists_mergeDefault props pair
  rw [heq] at hp
  split at hp
  · have hreverse : (names props.reverse).Nodup := by
      rw [names, List.map_reverse]
      exact List.nodup_reverse.mpr h
    rwa [eq_of_mem_replaceFirst hreverse (List.mem_reverse.mp hp) (hname.trans hmerged.name.symm)]
  · rename_i hnew
    rcases List.mem_append.mp hp with hp | hp
    · exact absurd (List.mem_map.mpr ⟨p, hp, hname⟩) hnew
    · rwa [List.mem_singleton.mp hp]

theorem nodup_insertNew {l : List String} (h : l.Nodup) (a : String) : (insertNew l a).Nodup := by
  unfold insertNew
  split
  · exact h
  · rename_i hnew
    rw [List.contains_iff_mem] at hnew
    exact List.Nodup.append h (List.nodup_singleton a) (List.disjoint_singleton.mpr hnew)

theorem nodup_names_mergeDefault (h : (names props).Nodup) :
    (names (mergeDefault props pair)).Nodup := by
  rw [names_mergeDefault]
  exact nodup_insertNew h pair.prop

end Merge

/-- What becomes of the props of the parameter when the entries of `defaultProps` are merged in. -/
structure Merged (own : List PropSpec) (pairs : List Site.DefaultPair) (schema : List PropSpec) :
    Prop where
  /-- No name comes twice. -/
  once : (names schema).Nodup
  /-- The names of the parameter come first, then those of the entries that are new, in order of
  first occurrence. -/
  order : names schema = names own ++
    ((pairs.map (·.prop)).filter fun name => !(names own).contains name).eraseDups
  /-- The last entry of a name counts. -/
  given : ∀ name ∈ pairs.map (·.prop), ∃ p ∈ schema, ∃ before pair after,
    pairs = before ++ pair :: after ∧ name ∉ after.map (·.prop) ∧ p.name = name ∧ FromPair pair p
  /-- All other props are what they were. -/
  kept : schema.filter (fun p => !(pairs.map (·.prop)).contains p.name) =
    own.filter fun p => !(pairs.map (·.prop)).contains p.name

section Merged

variable {own : List PropSpec} {pairs : List Site.DefaultPair}

theorem names_foldl_mergeDefault :
    names (pairs.foldl mergeDefault own) = (pairs.map (·.prop)).foldl insertNew (names own) := by
  induction pairs generalizing own with
  | nil => rfl
  | cons pair rest ih => rw [List.foldl_cons, ih, names_mergeDefault, List.map_cons, List.foldl_cons]

theorem filter_foldl_mergeDefault (own : List PropSpec) {f : String → Bool}
    (hf : ∀ pair ∈ pairs, f pair.prop = false) :
    (pairs.foldl mergeDefault own).filter (f ·.name) = own.filter (f ·.name) := by
  induction pairs generalizing own with
  | nil => rfl
  | cons pair rest ih =>
    rw [List.foldl_cons, ih _ fun q hq => hf q (List.mem_cons_of_mem _ hq),
      filter_mergeDefault (hf pair List.mem_cons_self)]

theorem nodup_names_foldl_mergeDefault (h : (names own).Nodup) :
    (names (pairs.foldl mergeDefault own)).Nodup := by
  induction pairs generalizing own with
  | nil => exact h
  | cons pair rest ih => exact ih (nodup_names_mergeDefault h)

/-- A prop that none of the later entries gives stays as it is. -/
theorem mem_of_mem_foldl_mergeDefault {p : PropSpec} (hp : p ∈ pairs.foldl mergeDefault own)
    (hname : p.name ∉ pairs.map (·.prop)) : p ∈ own := by
  have hkept := filter_foldl_mergeDefault own (f := (· == p.name))
    fun pair hpair => beq_false_of_ne fun h => hname (h ▸ List.mem_map_of_mem hpair)
  have hmem : p ∈ (pairs.foldl mergeDefault own).filter (·.name == p.name) :=
    List.mem_filter.mpr ⟨hp, beq_self_eq_true _⟩
  exact (List.mem_filter.mp (hkept ▸ hmem)).1

theorem exists_pair_of_mem_foldl {p : PropSpec} (h : (names own).Nodup)
    (hp : p ∈ pairs.foldl mergeDefault own) (hname : p.name ∈ pairs.map (·.prop)) :
    ∃ before pair after, pairs = before ++ pair :: after ∧ p.name ∉ after.map (·.prop) ∧
      FromPair pair p := by
  induction pairs generalizing own with
  | nil => cases hname
  | cons pair rest ih =>
    rw [List.foldl_cons] at hp
    by_cases hlater : p.name ∈ rest.map (·.prop)
    · obtain ⟨before, q, after, rfl, hlast, hq⟩ := ih (nodup_names_mergeDefault h) hp hlater
      exact ⟨pair :: before, q, after, rfl, hlast, hq⟩
    · have hhere := (List.mem_cons.mp hname).resolve_right hlater
      exact ⟨[], pair, rest, rfl, hlater,
        fromPair_of_mem_mergeDefault h (mem_of_mem_foldl_mergeDefault hp hlater) hhere⟩

/-- **The entries of `defaultProps` are merged in.** -/
theorem merged_foldl (h : (names own).Nodup) (pairs : List Site.DefaultPair) :
    Merged own pairs (pairs.foldl mergeDefault own) where
  once := nodup_names_foldl_mergeDefault h
  order := by rw [names_foldl_mergeDefault, foldl_insertNew]
  given name hname := by
    have hmem : name ∈ names (pairs.foldl mergeDefault own) := by
      rw [names_foldl_mergeDefault, foldl_insertNew, List.mem_append, List.mem_eraseDups,
        List.mem_filter]
      by_cases hown : name ∈ names own
      · exact .inl hown
      · exact .inr ⟨hname, by simpa using hown⟩
    obtain ⟨p, hp, rfl⟩ := List.mem_map.mp hmem
    obtain ⟨before, pair, after, hsplit, hlast, hpair⟩ := exists_pair_of_mem_foldl h hp hname
    exact ⟨p, hp, before, pair, after, hsplit, hlast, rfl, hpair⟩
  kept := by
    refine filter_foldl_mergeDefault own (f := fun name => !(pairs.map (·.prop)).contains name)
      fun pair hpair => ?_
    rw [List.contains_iff_mem.mpr (List.mem_map_of_mem hpair)]
    rfl

end Merged

/-! ## Both steps -/

section Schema

variable {root : Node} {site : Site} {param : Node}

/-- What the types of a file say about the props of a parameter. -/
def typesFor (root : Node) (site : Site) (param : Node) : List (String × Typing) :=
  typings root ((Function.pattern param).2.orElse fun _ => variableTyping? site.statement)

/-- The names of the props that the members of an object pattern take out: what a member is called
that stands for itself or has a default, and the key of a member that is called otherwise.  Other
members take out none. -/
def memberNames (pattern : Node) : List String :=
  pattern.parts.filterMap fun member =>
    match member.kind with
    | .shorthandPropertyIdentifierPattern => some member.text
    | .objectAssignmentPattern => (member.child? .left).map (·.text)
    | .pairPattern => (member.child? .key).map Node.keyName
    | _ => none

theorem memberNames_eq (pattern : Node) :
    memberNames pattern = pattern.parts.filterMap fun member => (ofMember? member).map (·.1) := by
  refine List.filterMap_congr fun member _ => ?_
  by_cases hshorthand : member.kind = .shorthandPropertyIdentifierPattern
  · simp [ofMember?, hshorthand]
  by_cases hassignment : member.kind = .objectAssignmentPattern
  · simp [ofMember?, hassignment, Function.comp_def]
  by_cases hpair : member.kind = .pairPattern
  · simp [ofMember?, hpair, Function.comp_def]
  unfold ofMember?
  grind

/-- The entries of `defaultProps`, none if there is no such object. -/
def defaultPairs (root : Node) (site : Site) : List Site.DefaultPair :=
  ((Site.defaults? root site).map (·.pairs)).getD []

/-- The props of a pattern stand in the order of its members. -/
theorem names_ofParameter (h : (Function.pattern param).1.kind = .objectPattern) :
    names (ofParameter root site param).props = memberNames (Function.pattern param).1 := by
  have hprops : (ofParameter root site param).props =
      (ofPattern (typesFor root site param) (Function.pattern param).1).map (·.2) := by
    simp only [ofParameter, h]
    rfl
  simp only [hprops, names, ofPattern, memberNames_eq, List.map_filterMap, Option.map_map]
  rfl

/-- The places in the function of a component where the props held by a name are read. -/
def readsOf (root : Node) (site : Site) (param : Node) : List (Nat × PropSpec) :=
  (site.callable.walk.map
    (readAt (typesFor root site param) (Function.pattern param).1.text)).flatMap (·.1)

theorem props_ofParameter (h : (Function.pattern param).1.kind = .identifier) :
    (ofParameter root site param).props = inOrder (readsOf root site param) := by
  simp only [ofParameter, h]
  rfl

/-- The props of a name are collected in the function of the component. -/
theorem collected_ofParameter (h : (Function.pattern param).1.kind = .identifier) :
    Collected (fun place p => ∃ n ∈ site.callable.walk,
        Reads (typesFor root site param) (Function.pattern param).1.text n place p)
      (ofParameter root site param).props := by
  rw [props_ofParameter h]
  refine (collected_inOrder _).congr fun place p => ?_
  simp only [readsOf, List.mem_flatMap, List.mem_map, exists_exists_and_eq_and, mem_readAt_iff]

theorem props_extract {rest : List Node} (h : Function.params site.callable = param :: rest) :
    (extract root site).props =
      (defaultPairs root site).foldl mergeDefault (ofParameter root site param).props := by
  unfold extract defaultPairs
  rw [h]
  cases Site.defaults? root site <;> rfl

/-- **The list of props of a component.**  Take a component whose props are a name, or an object
pattern with different members.  The props of the parameter come first: in the order of the pattern,
or in the order of the places where they are first read.  Then come the props of which nothing but
an entry of `defaultProps` is known, in the order of these.  No name comes twice.  The last entry of
a name tells what its prop is, and a prop without an entry is what the parameter says. -/
theorem schema_merged {path : String} (language : Language) {rest : List Node}
    (hsite : Site.locate root path = .ok site)
    (hparams : Function.params site.callable = param :: rest)
    (hpattern : (Function.pattern param).1.kind = .identifier ∨
      (Function.pattern param).1.kind = .objectPattern ∧
        (memberNames (Function.pattern param).1).Nodup) :
    ∃ d, Descriptor.ofTree root language path = .ok d ∧
      ((Function.pattern param).1.kind = .objectPattern →
        names (ofParameter root site param).props = memberNames (Function.pattern param).1) ∧
      ((Function.pattern param).1.kind = .identifier →
        Collected (fun place p => ∃ n ∈ site.callable.walk,
            Reads (typesFor root site param) (Function.pattern param).1.text n place p)
          (ofParameter root site param).props) ∧
      Merged (ofParameter root site param).props (defaultPairs root site) d.props := by
  have honce : (names (ofParameter root site param).props).Nodup := by
    rcases hpattern with hkind | ⟨hkind, hnodup⟩
    · exact (collected_ofParameter hkind).once
    · rwa [names_ofParameter hkind]
  refine ⟨_, by rw [Descriptor.ofTree, hsite]; rfl, names_ofParameter, collected_ofParameter, ?_⟩
  change Merged _ _ (extract root site).props
  rw [props_extract hparams]
  exact merged_foldl honce _

/-- A component that reads two props of its parameter, one of them twice, and whose object of
default props has an entry for one of them and two entries for another prop. -/
def badge : String :=
  "export const Badge = (p) => <i title=\x7bp.tone\x7d>\x7bp.size\x7d \x7bp.tone\x7d</i>;\n" ++
  "Badge.defaultProps = \x7b label: 1, size: 2, label: 3 \x7d;\n"

/-- A component that takes props out of its parameter, with members of each kind. -/
def tag : String :=
  "export const Tag = (\x7btone = 0, size: s, ink\x7d) => <i/>;\n" ++
  "Tag.defaultProps = \x7blabel: 1, size: 2, label: 3\x7d;\n"

/-- The pair that stands last among three. -/
theorem text_of_split {before after : List Site.DefaultPair} {pair : Site.DefaultPair}
    (h : (before ++ pair :: after).map (fun pair => (pair.prop, pair.value.text)) =
      [("label", "1"), ("size", "2"), ("label", "3")])
    (hprop : pair.prop = "label") (hlast : "label" ∉ after.map (·.prop)) :
    pair.value.text = "3" := by
  have hnames := congrArg (List.map Prod.fst) h
  rw [List.map_map, List.map_append, List.map_cons] at hnames
  match before with
  | [] =>
    have hafter : after.map (·.prop) = ["size", "label"] := (List.cons.inj hnames).2
    rw [hafter] at hlast
    exact absurd (by decide) hlast
  | [_] => simp_all
  | [_, _] => simp_all
  | _ :: _ :: _ :: _ => simp_all

/-- The last entry for the label counts, and the label stands behind the props that are read, or
taken out. -/
theorem badge_schema :
    (∃ s site param d, Source.parse badge "Badge.jsx" = .ok s ∧
      Site.locate s.root "Badge.jsx" = .ok site ∧ Function.params site.callable = [param] ∧
      (Function.pattern param).1.kind = .identifier ∧
      Descriptor.ofTree s.root .javascript "Badge.jsx" = .ok d ∧
      names d.props = ["tone", "size", "label"] ∧
      ∃ p ∈ d.props, p.name = "label" ∧ p.defaultText = some "3") ∧
    ∃ s site param d, Source.parse tag "Tag.jsx" = .ok s ∧
      Site.locate s.root "Tag.jsx" = .ok site ∧ Function.params site.callable = [param] ∧
      (Function.pattern param).1.kind = .objectPattern ∧
      Descriptor.ofTree s.root .javascript "Tag.jsx" = .ok d ∧
      names d.props = ["tone", "size", "ink", "label"] ∧
      ∃ p ∈ d.props, p.name = "label" ∧ p.defaultText = some "3" := by
  constructor
  · obtain ⟨s, site, hs, hsite, hlength, hparam, hpairs⟩ :=
      Site.exists_site badge "Badge.jsx" (P := fun s site =>
        (Function.params site.callable).length = 1 ∧
        (∀ param ∈ Function.params site.callable,
          (Function.pattern param).1.kind = .identifier ∧
          (readsOf s.root site param).Pairwise (fun r s => r.1 ≤ s.1) ∧
          names ((readsOf s.root site param).foldl keepFirst []) = ["tone", "size"]) ∧
        (defaultPairs s.root site).map (fun pair => (pair.prop, pair.value.text)) =
          [("label", "1"), ("size", "2"), ("label", "3")])
        (by decide +kernel)
    obtain ⟨param, hparams⟩ := List.length_eq_one_iff.mp hlength
    obtain ⟨hkind, hordered, hown⟩ := hparam param (hparams ▸ List.mem_cons_self)
    rw [← inOrder_of_pairwise hordered, ← props_ofParameter hkind] at hown
    obtain ⟨d, hd, -, -, hmerged⟩ := schema_merged .javascript hsite hparams (.inl hkind)
    have hprops : (defaultPairs s.root site).map (·.prop) = ["label", "size", "label"] := by
      have h := congrArg (List.map Prod.fst) hpairs
      rwa [List.map_map] at h
    obtain ⟨p, hp, before, pair, after, hsplit, hlast, hname, hpair⟩ :=
      hmerged.given "label" (by rw [hprops]; decide)
    refine ⟨s, site, param, d, hs, hsite, hparams, hkind, hd, ?_, p, hp, hname, ?_⟩
    · rw [hmerged.order, hown, hprops]
      decide
    · rw [hpair.defaultText, text_of_split (hsplit ▸ hpairs) (hpair.name.symm.trans hname) hlast]
  · obtain ⟨s, site, hs, hsite, hlength, hparam, hpairs⟩ :=
      Site.exists_site tag "Tag.jsx" (P := fun s site =>
        (Function.params site.callable).length = 1 ∧
        (∀ param ∈ Function.params site.callable,
          (Function.pattern param).1.kind = .objectPattern ∧
          memberNames (Function.pattern param).1 = ["tone", "size", "ink"]) ∧
        (defaultPairs s.root site).map (fun pair => (pair.prop, pair.value.text)) =
          [("label", "1"), ("size", "2"), ("label", "3")])
        (by decide +kernel)
    obtain ⟨param, hparams⟩ := List.length_eq_one_iff.mp hlength
    obtain ⟨hkind, hmembers⟩ := hparam param (hparams ▸ List.mem_cons_self)
    obtain ⟨d, hd, hown, -, hmerged⟩ := schema_merged .javascript hsite hparams
      (.inr ⟨hkind, by rw [hmembers]; decide⟩)
    have hprops : (defaultPairs s.root site).map (·.prop) = ["label", "size", "label"] := by
      have h := congrArg (List.map Prod.fst) hpairs
      rwa [List.map_map] at h
    obtain ⟨p, hp, before, pair, after, hsplit, hlast, hname, hpair⟩ :=
      hmerged.given "label" (by rw [hprops]; decide)
    refine ⟨s, site, param, d, hs, hsite, hparams, hkind, hd, ?_, p, hp, hname, ?_⟩
    · rw [hmerged.order, hown hkind, hmembers, hprops]
      decide
    · rw [hpair.defaultText, text_of_split (hsplit ▸ hpairs) (hpair.name.symm.trans hname) hlast]

end Schema

end Props
end Transplant
