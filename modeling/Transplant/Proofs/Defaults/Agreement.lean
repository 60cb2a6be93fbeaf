import Transplant.Proofs.Component.Schema
import Transplant.Proofs.Defaults.Meaning

/-!
# Two readings of an object pattern

An object pattern is read twice.  The analysis lists its props with their defaults
(`Props.ofPattern`), and the edits of defaults look a prop up among its members
(`Defaults.members`, `Defaults.memberDefault?`).  Member by member both see the same
(`Props.ofMember?_eq`): the same prop or none, and for the prop the same default or none.

Where a pattern takes a prop out twice, the list has it twice and the table once, with the last
member.  So what the table says of a prop is what the last prop of that name in the list says.

* `Defaults.Reports`: a prop says of its default what stands on a member
* `Props.last?_ofMembers`: the last prop of a name
* `Table.keys_ofPairs`: the order of the keys
* `Defaults.readings_agree`: the two readings
-/

namespace Transplant

namespace Table

variable {α : Type}

/-- A key keeps its place in a table, and a new key comes last. -/
theorem keys_put (t : Table α) (key : String) (value : α) :
    (t.put key value).keys = insertNew t.keys key := by
  obtain ⟨entries, hdistinct⟩ := t
  show (putEntry key value entries).map (·.1) = insertNew (entries.map (·.1)) key
  clear hdistinct
  induction entries with
  | nil => rfl
  | cons e rest ih =>
    unfold putEntry
    split
    · rename_i he
      simp [insertNew, he]
    · rename_i he
      rw [List.map_cons, ih, List.map_cons, insertNew, insertNew, List.contains_cons,
        beq_false_of_ne (Ne.symm he), Bool.false_or]
      split <;> rfl

theorem keys_ofPairs (pairs : List (String × α)) :
    (ofPairs pairs).keys = eachOnce (pairs.map (·.1)) := by
  have hfold (t : Table α) : (pairs.foldl (fun t p => t.put p.1 p.2) t).keys =
      (pairs.map (·.1)).foldl insertNew t.keys := by
    induction pairs generalizing t with
    | nil => rfl
    | cons p rest ih => rw [List.foldl_cons, ih, keys_put, List.map_cons, List.foldl_cons]
  exact hfold empty

end Table

namespace Props

open Defaults (memberName? memberDefault? members)

/-- **Both readings see the same in a member.** -/
theorem ofMember?_eq (member : Node) :
    ofMember? member = (memberName? member).map fun name => (name, memberDefault? member) := by
  unfold ofMember?
  split
  · rename_i hkind
    simp only [memberName?, memberDefault?, hkind, Option.map_some]
  · rename_i hkind
    simp only [memberName?, memberDefault?, hkind, Option.map_map, Function.comp_def]
  · rename_i hkind
    simp only [memberName?, memberDefault?, hkind, Option.map_map, Function.comp_def]
  · rename_i hshorthand hassignment hpair
    have hname : memberName? member = none := by
      unfold memberName?
      split
      · exact absurd ‹_› hshorthand
      · exact absurd ‹_› hassignment
      · exact absurd ‹_› hpair
      · rfl
    rw [hname, Option.map_none]

/-- The last prop of a name. -/
def last? (props : List PropSpec) (name : String) : Option PropSpec :=
  props.reverse.find? (·.name == name)

/-- The props of some members of a pattern. -/
def ofMembers (types : List (String × Typing)) (members : List Node) : List PropSpec :=
  members.filterMap fun m => (memberName? m).map fun name => make types name (memberDefault? m)

variable (types : List (String × Typing))

theorem map_snd_ofPattern (pattern : Node) :
    (ofPattern types pattern).map (·.2) = ofMembers types pattern.parts := by
  simp only [ofPattern, ofMembers, ofMember?_eq, List.map_filterMap, Option.map_map,
    Function.comp_def]

theorem ofMembers_reverse (l : List Node) :
    ofMembers types l.reverse = (ofMembers types l).reverse :=
  List.filterMap_reverse

theorem names_ofMembers (l : List Node) : names (ofMembers types l) = l.filterMap memberName? := by
  rw [names, ofMembers, List.map_filterMap]
  refine List.filterMap_congr fun m _ => ?_
  cases memberName? m <;> rfl

theorem find?_ofMembers (l : List Node) (name : String) :
    (ofMembers types l).find? (·.name == name) =
      (l.find? (memberName? · == some name)).map fun m => make types name (memberDefault? m) := by
  induction l with
  | nil => rfl
  | cons m rest ih =>
    cases hname : memberName? m with
    | none => simpa [ofMembers, hname] using ih
    | some prop =>
      by_cases h : prop = name
      · subst h
        simp [ofMembers, hname, make]
      · simpa [ofMembers, hname, make, h] using ih

/-- The last prop of a name is that of the last member that binds it. -/
theorem last?_ofMembers (l : List Node) (name : String) :
    last? (ofMembers types l) name =
      (Defaults.lastMember? l name).map fun m => make types name (memberDefault? m) := by
  rw [last?, ← ofMembers_reverse, find?_ofMembers, Defaults.lastMember?]

end Props

namespace Defaults

open Props (names last? ofMembers ofPattern make)

/-- The prop is the one that the member binds, and says of its default what stands on the member:
whether there is one, and its text. -/
structure Reports (p : PropSpec) (member : Node) : Prop where
  name : memberName? member = some p.name
  hasDefault : p.hasDefault = true ↔ (memberDefault? member).isSome = true
  defaultText : p.defaultText = (memberDefault? member).map (·.text)

variable {types : List (String × Props.Typing)}

theorem reports_make {member : Node} {prop : String} (h : memberName? member = some prop) :
    Reports (make types prop (memberDefault? member)) member :=
  ⟨h, Iff.rfl, rfl⟩

/-- The props of some members are those of the members that bind one, in order. -/
theorem forall₂_reports (l : List Node) :
    List.Forall₂ Reports (ofMembers types l) (l.filter fun m => (memberName? m).isSome) := by
  induction l with
  | nil => exact .nil
  | cons m rest ih =>
    cases hname : memberName? m with
    | none => simpa [ofMembers, hname] using ih
    | some prop => simpa [ofMembers, hname] using ⟨reports_make hname, ih⟩

theorem keys_members (pattern : Node) :
    (members pattern).keys = eachOnce (pattern.parts.filterMap memberName?) := by
  rw [members, Table.keys_ofPairs, List.map_filterMap]
  congr 1
  refine List.filterMap_congr fun m _ => ?_
  cases memberName? m <;> rfl

/-- **The readings of an object pattern agree.**  The table of members has the names of the listed
props as keys, in order of first occurrence.  For each of them, its member is the one of which the
last prop of that name reports the default: whether there is one, and its text.  So a default is
reported by the last prop of a name exactly if it stands on the member of that name.  And prop by
prop, earlier props of a repeated name included, the list reports what stands on the members that
bind a prop. -/
theorem readings_agree (types : List (String × Props.Typing)) (pattern : Node) :
    (members pattern).keys = eachOnce (names ((ofPattern types pattern).map (·.2))) ∧
    (∀ name ∈ names ((ofPattern types pattern).map (·.2)), ∃ member p,
      (members pattern).get? name = some member ∧
      last? ((ofPattern types pattern).map (·.2)) name = some p ∧ Reports p member) ∧
    (∀ name text,
      (∃ p, last? ((ofPattern types pattern).map (·.2)) name = some p ∧
        p.defaultText = some text) ↔
      ∃ member dflt, (members pattern).get? name = some member ∧
        memberDefault? member = some dflt ∧ dflt.text = text) ∧
    List.Forall₂ Reports ((ofPattern types pattern).map (·.2))
      (pattern.parts.filter fun m => (memberName? m).isSome) := by
  simp only [Props.map_snd_ofPattern, Props.names_ofMembers, Props.last?_ofMembers, members_get?,
    keys_members, true_and]
  refine ⟨fun name hname => ?_, fun name text => ?_, forall₂_reports _⟩
  · obtain ⟨member, hmember⟩ := exists_get? (List.mem_filterMap.mp hname)
    rw [members_get?] at hmember
    refine ⟨member, _, hmember, by rw [hmember]; rfl, ?_⟩
    exact reports_make (lastMember?_cases hmember).2
  · constructor
    · rintro ⟨p, hp, htext⟩
      obtain ⟨member, hmember, rfl⟩ := Option.map_eq_some_iff.mp hp
      obtain ⟨dflt, hdflt, rfl⟩ := Option.map_eq_some_iff.mp htext
      exact ⟨member, dflt, hmember, hdflt, rfl⟩
    · rintro ⟨member, dflt, hmember, hdflt, rfl⟩
      refine ⟨make types name (memberDefault? member), by rw [hmember]; rfl, ?_⟩
      rw [hdflt]
      rfl

/-- A prop that is taken out twice is listed twice.  Its last member counts, and that one has no
default. -/
example :
    ((Source.parse "f((\x7b a = 1, a: b \x7d) => b);\n" "A.jsx").toOption.bind fun s =>
      (s.root.walk.find? (·.kind == .objectPattern)).map fun pattern =>
        (((ofPattern [] pattern).map (·.2)).map (·.defaultText), (members pattern).keys,
          ((members pattern).get? "a").map fun m => (memberDefault? m).map (·.text))) =
      some ([some "1", none], ["a"], some none) := by
  decide +kernel

end Defaults
end Transplant
