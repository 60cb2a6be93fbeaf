import Transplant.Adapt.Defaults
import Mathlib.Data.List.Basic

/-!
# What a component takes for a prop that is missing

Defaults stand in two places.  The object that is assigned to the component is a list of entries,
and for each prop the last entry counts that gives it a value.  Only if none does, the initializer
in the parameter of the component counts.

## Interpretations

What an entry gives depends on the program around it.  A literal means the same wherever it is
written, so its meaning is that of its text; any other expression means what it means at its place;
and a spread is some map, about which nothing is known.  An `Interpretation` fixes all of this, and
a statement about defaults is made for every interpretation.

* `Interpretation.effective`: the default of a prop
* `gives`, `mayGive`: entries that always give a prop a value, and those that can
* `members_get?`: the member of a pattern that counts for a prop
* `probe`: an interpretation under which literals and everything else differ
-/

namespace Transplant

namespace Defaults

/-! ## Entries -/

/-- The pair that an entry of an object is. -/
def asPair? (entry : Node) : Option Site.DefaultPair :=
  if entry.kind == .pair then
    match entry.child? .key, entry.child? .value with
    | some key, some value => some ⟨key.keyName, entry, value⟩
    | _, _ => none
  else none

theorem pairsOf_eq (object : Node) : Site.pairsOf object = object.parts.filterMap asPair? := by
  rw [Site.pairsOf, List.filterMap_filter]
  congr 1

theorem pair_of_asPair? {entry : Node} {p : Site.DefaultPair} (h : asPair? entry = some p) :
    p.pair = entry := by
  unfold asPair? at h
  split at h
  · split at h
    · rw [← Option.some.inj h]
    · cases h
  · cases h

theorem kind_of_asPair? {entry : Node} {p : Site.DefaultPair} (h : asPair? entry = some p) :
    entry.kind = .pair := by
  unfold asPair? at h
  split at h
  · rename_i hkind
    exact beq_iff_eq.mp hkind
  · cases h

/-- The entry always gives the prop a value. -/
def gives (prop : String) (entry : Node) : Bool :=
  match entry.kind with
  | .pair => (asPair? entry).any (·.prop == prop)
  | .shorthandPropertyIdentifier => entry.text == prop
  | .methodDefinition => (entry.child? .name).any (·.keyName == prop)
  | _ => false

/-- The entry can give the prop a value: it does, or it is a spread. -/
def mayGive (prop : String) (entry : Node) : Bool :=
  entry.kind == .spreadElement || gives prop entry

theorem gives_of_asPair? {entry : Node} {p : Site.DefaultPair} (h : asPair? entry = some p)
    (prop : String) : gives prop entry = (p.prop == prop) := by
  simp [gives, kind_of_asPair? h, h]

theorem not_gives_of_spread {entry : Node} (h : entry.kind = .spreadElement) (prop : String) :
    gives prop entry = false := by
  simp [gives, h]

/-! ## Members -/

/-- The member of a pattern that counts for a prop, which is the last that binds it. -/
def lastMember? (members : List Node) (prop : String) : Option Node :=
  members.reverse.find? (memberName? · == some prop)

theorem lookup_memberNames (members : List Node) (prop : String) :
    (members.filterMap fun m => (memberName? m).map (·, m)).lookup prop =
      members.find? (memberName? · == some prop) := by
  induction members with
  | nil => rfl
  | cons m rest ih =>
    cases hname : memberName? m with
    | none => simp [hname, ih]
    | some name =>
      by_cases h : prop = name
      · simp [hname, h]
      · simp [hname, List.lookup_cons, beq_false_of_ne h, Ne.symm h, ih]

theorem members_get? (pattern : Node) (prop : String) :
    (members pattern).get? prop = lastMember? pattern.parts prop := by
  rw [members, Table.get?_ofPairs, ← List.filterMap_reverse, lookup_memberNames, lastMember?]

theorem lastMember?_cases {members : List Node} {prop : String} {m : Node}
    (h : lastMember? members prop = some m) : m ∈ members ∧ memberName? m = some prop :=
  ⟨List.mem_reverse.mp (List.mem_of_find?_eq_some h), by simpa using List.find?_some h⟩

theorem member_of_get? {pattern m : Node} {prop : String}
    (h : (members pattern).get? prop = some m) : m ∈ pattern.parts ∧ memberName? m = some prop :=
  lastMember?_cases (members_get? pattern prop ▸ h)

/-- A prop that a pattern binds has a member that counts. -/
theorem exists_get? {pattern : Node} {prop : String}
    (h : ∃ m ∈ pattern.parts, memberName? m = some prop) :
    ∃ m, (members pattern).get? prop = some m := by
  obtain ⟨m, hm, hname⟩ := h
  rw [members_get?, lastMember?, ← Option.isSome_iff_exists, List.find?_isSome]
  exact ⟨m, List.mem_reverse.mpr hm, beq_iff_eq.mpr hname⟩

/-- Members that go on binding the same props keep their order. -/
theorem lastMember?_map {f : Node → Node} {members : List Node}
    (h : ∀ m ∈ members, memberName? (f m) = memberName? m) (prop : String) :
    lastMember? (members.map f) prop = (lastMember? members prop).map f := by
  have hsame : ∀ l : List Node, (∀ m ∈ l, memberName? (f m) = memberName? m) →
      (l.map f).find? (memberName? · == some prop) =
        (l.find? (memberName? · == some prop)).map f := by
    intro l hl
    induction l with
    | nil => rfl
    | cons m rest ih =>
      have hrest := ih fun m' hm' => hl m' (List.mem_cons_of_mem m hm')
      rw [List.map_cons, List.find?_cons, List.find?_cons, hl m List.mem_cons_self, hrest]
      split <;> rfl
  rw [lastMember?, ← List.map_reverse]
  exact hsame members.reverse fun m hm => h m (List.mem_reverse.mp hm)

/-! ## Interpretations -/

theorem isStatic_inRole (e : Node) (role : Role) :
    Expression.isStatic (e.inRole role) = Expression.isStatic e := by
  obtain ⟨kind, own, start, stop, line, text, children⟩ := e
  simp only [Node.inRole, Expression.isStatic, Node.unwrap]
  cases kind.isWrapper with
  | false => rfl
  | true => cases Node.unwrapFirst? children <;> rfl

/-- What the program around the defaults makes of them. -/
structure Interpretation (V : Type) where
  /-- The value of a literal with this text. -/
  literal : String → V
  /-- The value of any other expression, and of a name or method in an object, at its place. -/
  dynamic : Node → V
  /-- The map that is spread at a place. -/
  spread : Node → String → Option V

namespace Interpretation

variable {V : Type} (I : Interpretation V)

/-- The value of an expression. -/
def value (e : Node) : V := if Expression.isStatic e then I.literal e.text else I.dynamic e

/-- What an entry gives to a prop. -/
def given (prop : String) (entry : Node) : Option V :=
  if entry.kind = .spreadElement then I.spread entry prop
  else if gives prop entry then
    some (((asPair? entry).map (I.value ·.value)).getD (I.dynamic entry))
  else none

/-- What a list of entries gives to a prop: the last entry counts that gives it something. -/
def lastGiven (entries : List Node) (prop : String) : Option V :=
  entries.reverse.findSome? (I.given prop)

/-- The initializer of a prop among the members of a pattern. -/
def initializer (members : List Node) (prop : String) : Option V :=
  ((lastMember? members prop).bind memberDefault?).map I.value

/-- The default of a prop: what the entries of the object give it, or else its initializer. -/
def effective (members entries : List Node) (prop : String) : Option V :=
  (I.lastGiven entries prop).or (I.initializer members prop)

/-- A literal means the same in any role. -/
theorem value_inRole {e : Node} (role : Role) (h : Expression.isStatic e = true) :
    I.value (e.inRole role) = I.value e := by
  have hstatic : Expression.isStatic (e.inRole role) = true := by
    rw [isStatic_inRole, h]
  rw [value, value, if_pos hstatic, if_pos h]
  rfl

theorem lastGiven_append (l r : List Node) (prop : String) :
    I.lastGiven (l ++ r) prop = (I.lastGiven r prop).or (I.lastGiven l prop) := by
  rw [lastGiven, List.reverse_append, List.findSome?_append, lastGiven, lastGiven]

theorem lastGiven_cons (entry : Node) (r : List Node) (prop : String) :
    I.lastGiven (entry :: r) prop = (I.lastGiven r prop).or (I.given prop entry) := by
  rw [← List.singleton_append, lastGiven_append]
  simp [lastGiven]

theorem given_of_not_mayGive {prop : String} {entry : Node} (h : mayGive prop entry = false) :
    I.given prop entry = none := by
  simp only [mayGive, Bool.or_eq_false_iff, beq_eq_false_iff_ne] at h
  rw [given, if_neg h.1, h.2, if_neg Bool.false_ne_true]

theorem isSome_given {prop : String} {entry : Node} (h : gives prop entry = true) :
    (I.given prop entry).isSome = true := by
  have hspread : entry.kind ≠ .spreadElement := fun hkind => by
    rw [not_gives_of_spread hkind] at h
    cases h
  rw [given, if_neg hspread, if_pos h, Option.isSome_some]

theorem given_pair {entry : Node} {p : Site.DefaultPair} (h : asPair? entry = some p) :
    I.given p.prop entry = some (I.value p.value) := by
  have hspread : entry.kind ≠ .spreadElement := by
    rw [kind_of_asPair? h]
    decide
  have hgives : gives p.prop entry = true := by rw [gives_of_asPair? h, beq_self_eq_true]
  rw [given, if_neg hspread, if_pos hgives, h, Option.map_some, Option.getD_some]

/-- Entries that cannot give a prop a value may be there or not. -/
theorem lastGiven_filter {keep : Node → Bool} {entries : List Node} {prop : String}
    (h : ∀ q ∈ entries, keep q = false → mayGive prop q = false) :
    I.lastGiven (entries.filter keep) prop = I.lastGiven entries prop := by
  induction entries with
  | nil => rfl
  | cons q rest ih =>
    have hrest := ih fun q' hq' => h q' (List.mem_cons_of_mem q hq')
    cases hkeep : keep q with
    | true => rw [List.filter_cons_of_pos hkeep, lastGiven_cons, lastGiven_cons, hrest]
    | false =>
      rw [List.filter_cons_of_neg (by simp [hkeep]), lastGiven_cons, hrest,
        given_of_not_mayGive I (h q List.mem_cons_self hkeep), Option.or_none]

theorem lastGiven_eq_none {entries : List Node} {prop : String}
    (h : ∀ q ∈ entries, mayGive prop q = false) : I.lastGiven entries prop = none := by
  refine List.findSome?_eq_none_iff.mpr fun q hq => ?_
  exact given_of_not_mayGive I (h q (List.mem_reverse.mp hq))

/-- If entries give a prop nothing but one value, and one of them does, that is what it gets. -/
theorem lastGiven_eq_some {entries : List Node} {prop : String} {x : V}
    (hall : ∀ q ∈ entries, ∀ y, I.given prop q = some y → y = x)
    (hsome : ∃ q ∈ entries, (I.given prop q).isSome = true) :
    I.lastGiven entries prop = some x := by
  have hfound : (I.lastGiven entries prop).isSome = true := by
    obtain ⟨q, hq, hgiven⟩ := hsome
    rw [lastGiven, List.findSome?_isSome_iff]
    exact ⟨q, List.mem_reverse.mpr hq, hgiven⟩
  obtain ⟨y, hy⟩ := Option.isSome_iff_exists.mp hfound
  obtain ⟨q, hq, hgiven⟩ := List.exists_of_findSome?_eq_some hy
  rw [hy, hall q (List.mem_reverse.mp hq) y hgiven]

theorem isSome_lastGiven {entries : List Node} {prop : String}
    (h : ∃ q ∈ entries, gives prop q = true) : (I.lastGiven entries prop).isSome = true := by
  obtain ⟨q, hq, hgives⟩ := h
  rw [lastGiven, List.findSome?_isSome_iff]
  exact ⟨q, List.mem_reverse.mpr hq, isSome_given I hgives⟩

end Interpretation

/-! ## The probe -/

/-- The probe: literals mean one thing and everything else another, and spreads at the given places
give every prop a value. -/
def probe (places : List Nat) : Interpretation Bool where
  literal _ := false
  dynamic _ := true
  spread q _ := if places.contains q.start then some true else none

theorem given_probe {q : Node} {prop : String} {places : List Nat} (hplace : q.start ∈ places)
    (hliteral : ∀ p, asPair? q = some p → p.prop = prop → Expression.isStatic p.value = false) :
    (probe places).given prop q = if mayGive prop q then some true else none := by
  by_cases hspread : q.kind = .spreadElement
  · simp [Interpretation.given, probe, mayGive, hspread, hplace]
  · cases hgives : gives prop q with
    | false => simp [Interpretation.given, mayGive, hspread, hgives]
    | true =>
      cases hpair : asPair? q with
      | none => simp [Interpretation.given, mayGive, hspread, hgives, hpair, probe]
      | some p =>
        rw [gives_of_asPair? hpair, beq_iff_eq] at hgives
        have hgives' : gives prop q = true := by
          rw [gives_of_asPair? hpair, hgives, beq_self_eq_true]
        simp [Interpretation.given, Interpretation.value, mayGive, hspread, hgives', hpair,
          hliteral p hpair hgives, probe]

/-- The probe sees what can give a prop a value, as long as no literal does. -/
theorem lastGiven_probe {entries : List Node} {prop : String} {places : List Nat}
    (hplaces : ∀ q ∈ entries, q.start ∈ places)
    (hliteral : ∀ q ∈ entries, ∀ p, asPair? q = some p → p.prop = prop →
      Expression.isStatic p.value = false)
    (h : ∃ q ∈ entries, mayGive prop q = true) :
    (probe places).lastGiven entries prop = some true := by
  have hgiven : ∀ q ∈ entries,
      (probe places).given prop q = if mayGive prop q then some true else none :=
    fun q hq => given_probe (hplaces q hq) (hliteral q hq)
  refine (probe places).lastGiven_eq_some (fun q hq y hy => ?_) ?_
  · rw [hgiven q hq] at hy
    split at hy
    · exact (Option.some.inj hy).symm
    · cases hy
  · obtain ⟨q, hq, hmay⟩ := h
    exact ⟨q, hq, by rw [hgiven q hq, if_pos hmay]; rfl⟩

/-- The probe does not see spreads at other places. -/
theorem lastGiven_probe_eq_none {entries : List Node} {prop : String} {places : List Nat}
    (hplaces : ∀ q ∈ entries, q.start ∉ places) (h : ∀ q ∈ entries, gives prop q = false) :
    (probe places).lastGiven entries prop = none := by
  refine List.findSome?_eq_none_iff.mpr fun q hq => ?_
  have hmem := List.mem_reverse.mp hq
  simp [Interpretation.given, probe, hplaces q hmem, h q hmem]

theorem value_probe {e : Node} (places : List Nat) (h : Expression.isStatic e = true) :
    (probe places).value e = false := if_pos h

end Defaults
end Transplant
