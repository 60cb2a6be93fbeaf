import Transplant.Proofs.Adapt.NamedImports

/-!
# Whether new names are kept apart

When names are replaced, two names that stood for different variables must not come to stand for
one.  Two checks are there to see to this.  The plan of a component is refused if two names would
get one new name (`Batch.get?_renames_injective`).  The pass is refused if a new name is in use in
the file and is not replaced itself (`Identifiers.not_mem_used`).  So chains of new names are fine,
and so are swaps.

But the second check looks at fewer names than the pass replaces.  A variable is named by an
identifier or, in a shorthand property, by a key that is a variable at the same time.  The pass
replaces both, and the check looks for identifiers only.  A variable that the file names in
shorthand properties and nowhere else is not noticed, and something else can be given its name
(`Identifiers.Merged`).  `Batch.names_apart_iff` says that nothing else can go wrong.

* `Identifiers.names`: the nodes of a tree that name a variable
* `Identifiers.variableAfter`: the variable that such a node names after the pass
* `Batch.names_apart_iff`: when the pass keeps variables apart
* `Batch.recursion_captured`: a component that comes to use a prop where it used itself
-/

namespace Transplant

namespace Identifiers

/-! ## Names and their variables -/

/-- Whether a node names a variable. -/
def isName (n : Node) : Bool := n.kind == .identifier || isShorthand n

/-- The nodes of a tree that name a variable. -/
def names (root : Node) : List Node := root.walk.filter isName

/-- The variable that a node names after the pass, which is what its edit says: in place of an
identifier stands the variable, and in place of a shorthand the key, a colon and the variable. -/
def variableAfter (renames : Table String) (n : Node) : String :=
  match edit? renames n with
  | some e =>
    if isShorthand n then String.ofList (e.replacement.toList.drop (n.text.length + 2))
    else e.replacement
  | none => n.text

variable {renames : Table String} {root n : Node}

theorem not_isShorthand_of_identifier (h : n.kind = .identifier) : isShorthand n = false := by
  simp [isShorthand, h]

theorem mem_names_iff : n ∈ names root ↔ n ∈ root.walk ∧ isName n = true := List.mem_filter

/-- The pass replaces all names that have a new name. -/
theorem variableAfter_eq (h : isName n = true) :
    variableAfter renames n = (renames.get? n.text).getD n.text := by
  rw [isName, Bool.or_eq_true, beq_iff_eq] at h
  unfold variableAfter edit?
  by_cases hidentifier : n.kind = .identifier
  · rw [if_pos (beq_iff_eq.mpr hidentifier), not_isShorthand_of_identifier hidentifier]
    cases renames.get? n.text <;> rfl
  · have hshorthand := h.resolve_left hidentifier
    rw [if_neg (mt beq_iff_eq.mp hidentifier), if_pos hshorthand]
    cases renames.get? n.text with
    | none => rfl
    | some new =>
      have hlength : n.text.length + 2 = (n.text ++ ": ").toList.length := by
        simp [String.length_toList]
      simp only [Option.map_some, hshorthand, if_true, Option.getD_some]
      rw [String.toList_append, hlength, List.drop_left, String.ofList_toList]

/-- Only names are replaced. -/
theorem isName_of_edit? {e : Edit} (h : edit? renames n = some e) : isName n = true := by
  unfold edit? at h
  rw [isName, Bool.or_eq_true]
  split at h
  · rename_i hkind
    exact .inl hkind
  · split at h
    · rename_i hshorthand
      exact .inr hshorthand
    · cases h

/-! ## What the pass checks -/

variable {p : Plan} {edits : List Edit} {old new : String}

/-- A new name that is not replaced itself is not in use. -/
theorem not_mem_used (h : Identifiers.edits p root = .ok edits)
    (hnew : p.renames.get? old = some new) (hstays : p.renames.get? new = none) :
    new ∉ used root := by
  intro hused
  unfold Identifiers.edits at h
  split at h
  next hempty =>
    rw [Table.get?, List.isEmpty_iff.mp hempty, List.lookup_nil] at hnew
    cases hnew
  next =>
    split at h
    next => cases h
    next hnone =>
      rw [clash?, Option.map_eq_none_iff, List.find?_eq_none] at hnone
      refine hnone (old, new) (Table.mem_entries_iff.mpr hnew) ?_
      have hkey : p.renames.contains new = false := by
        rw [Table.contains, List.contains_eq_mem, decide_eq_false_iff_not, Table.keys,
          List.mem_map]
        rintro ⟨⟨key, value⟩, hentry, rfl⟩
        rw [Table.mem_entries_iff, hstays] at hentry
        cases hentry
      simp [hused, hkey]

/-- A name in use gets the name of a shorthand that keeps its own. -/
def Merged (renames : Table String) (root : Node) : Prop :=
  ∃ x ∈ names root, ∃ y ∈ names root, isShorthand y = true ∧
    renames.get? x.text = some y.text ∧ renames.get? y.text = none

/-- A name that gets the name of another one that keeps its own gets that of a shorthand. -/
theorem merged_of_get? (h : Identifiers.edits p root = .ok edits) {x y : Node}
    (hx : x ∈ names root) (hy : y ∈ names root) (hnew : p.renames.get? x.text = some y.text)
    (hstays : p.renames.get? y.text = none) : Merged p.renames root := by
  refine ⟨x, hx, y, hy, ?_, hnew, hstays⟩
  rw [mem_names_iff] at hy
  obtain ⟨hwalk, hname⟩ := hy
  rw [isName, Bool.or_eq_true] at hname
  refine hname.resolve_left fun hkind => not_mem_used h hnew hstays ?_
  exact List.mem_map.mpr ⟨y, List.mem_filter.mpr ⟨hwalk, hkind⟩, rfl⟩

end Identifiers

/-! ## Plans -/

namespace Batch

open Identifiers

variable {b : Batch} {d : Descriptor} {p : Plan}

/-- No two names of a plan have one new name. -/
theorem get?_renames_injective (h : b.plan d = .ok p) {old old' new : String}
    (hold : p.renames.get? old = some new) (hold' : p.renames.get? old' = some new) :
    old = old' := by
  obtain ⟨⟨_, _⟩, -, h⟩ := exists_of_bind h
  obtain ⟨_, -, h⟩ := exists_of_bind h
  dsimp only at h
  split at h
  next => cases h
  next hshared =>
    obtain rfl := Except.ok.inj h
    exact injective_of_shared? hshared hold hold'

/-- **When the pass keeps variables apart.**  Take any tree and any plan that is not refused, and let
the pass not be refused either.  The edits are those of the names, and any two names stand for one
variable afterwards if and only if they did before, unless something gets the name of a variable
that the tree names in shorthand properties only. -/
theorem names_apart_iff {root : Node} {edits : List Edit} (hplan : b.plan d = .ok p)
    (hedits : Identifiers.edits p root = .ok edits) :
    edits = (names root).filterMap (edit? p.renames) ∧
    ((∀ x ∈ names root, ∀ y ∈ names root,
        variableAfter p.renames x = variableAfter p.renames y ↔ x.text = y.text) ↔
      ¬Merged p.renames root) := by
  have hafter : ∀ x ∈ names root,
      variableAfter p.renames x = (p.renames.get? x.text).getD x.text := by
    intro x hx
    rw [mem_names_iff] at hx
    exact variableAfter_eq hx.2
  refine ⟨?_, ⟨fun hapart => ?_, fun hmerged x hx y hy => ?_⟩⟩
  · rw [edits_eq hedits, names, List.filterMap_filter]
    refine List.filterMap_congr fun n _ => ?_
    cases hedit : edit? p.renames n with
    | none => rw [ite_self]
    | some e => rw [if_pos (isName_of_edit? hedit)]
  · rintro ⟨x, hx, y, hy, -, hnew, hstays⟩
    have hsame : x.text = y.text := by
      rw [← hapart x hx y hy, hafter x hx, hafter y hy, hnew, hstays]
      rfl
    rw [hsame, hstays] at hnew
    cases hnew
  · refine ⟨fun hsame => ?_, fun htext => by rw [hafter x hx, hafter y hy, htext]⟩
    rw [hafter x hx, hafter y hy] at hsame
    cases hxnew : p.renames.get? x.text with
    | none =>
      cases hynew : p.renames.get? y.text with
      | none => simpa [hxnew, hynew] using hsame
      | some new =>
        obtain rfl : x.text = new := by simpa [hxnew, hynew] using hsame
        exact absurd (merged_of_get? hedits hy hx hynew hxnew) hmerged
    | some new =>
      cases hynew : p.renames.get? y.text with
      | none =>
        obtain rfl : new = y.text := by simpa [hxnew, hynew] using hsame
        exact absurd (merged_of_get? hedits hx hy hxnew hynew) hmerged
      | some new' =>
        obtain rfl : new = new' := by simpa [hxnew, hynew] using hsame
        exact get?_renames_injective hplan hxnew hynew

/-! ### A swap of two names, and a prop with the new name of its component -/

/-- A batch in which `Tip` and `Hint` change their names. -/
def swapped : Batch where
  naming := { header := false, renames := Table.ofPairs [("Tip", "Hint"), ("Hint", "Tip")] }

/-- A component with the name `Tip` that uses another one with the name `Hint`. -/
def tipWithHint : String := "import Hint from './h';\nexport const Tip = () => <Hint/>;\n"

/-- A text that is read, with what is known of the component in it and its plan. -/
def planned? (b : Batch) (text : String) : Option (Source × Descriptor × Plan) := do
  let s ← (Source.parse text "M.jsx").toOption
  let d ← (Descriptor.ofTree s.root s.language "M.jsx").toOption
  let p ← (b.plan d).toOption
  return (s, d, p)

theorem exists_of_planned? {text : String} {P : Source × Descriptor × Plan → Bool}
    (h : (b.planned? text).any P = true) :
    ∃ s d p, Source.parse text "M.jsx" = .ok s ∧
      Descriptor.ofTree s.root s.language "M.jsx" = .ok d ∧ b.plan d = .ok p ∧
      P (s, d, p) = true := by
  obtain ⟨⟨s, d, p⟩, hread, hP⟩ := (Option.any_eq_true _ _).mp h
  simp only [planned?, bind, Option.bind_eq_some_iff] at hread
  obtain ⟨s', hs, d', hd, p', hp, heq⟩ := hread
  obtain ⟨rfl, rfl, rfl⟩ := by simpa using heq
  exact ⟨s', d', p', ok_of_toOption hs, ok_of_toOption hd, ok_of_toOption hp, hP⟩

theorem swapped_check :
    (swapped.planned? tipWithHint).any (fun r =>
      (Identifiers.edits r.2.2 r.1.root).toOption ==
        some [⟨7, 11, "Tip"⟩, ⟨37, 40, "Hint"⟩, ⟨50, 54, "Tip"⟩] &&
      (names r.1.root).all (fun n => !isShorthand n)) = true := by
  decide +kernel

/-- A swap keeps variables apart. -/
theorem swapped_names_apart :
    ∃ s d p edits, Source.parse tipWithHint "M.jsx" = .ok s ∧
      Descriptor.ofTree s.root s.language "M.jsx" = .ok d ∧ swapped.plan d = .ok p ∧
      Identifiers.edits p s.root = .ok edits ∧
      ∀ x ∈ names s.root, ∀ y ∈ names s.root,
        variableAfter p.renames x = variableAfter p.renames y ↔ x.text = y.text := by
  obtain ⟨s, d, p, hs, hd, hp, hcheck⟩ := exists_of_planned? swapped_check
  obtain ⟨hedits, hshorthand⟩ := (Bool.and_eq_true _ _).mp hcheck
  have hedits := ok_of_toOption (beq_iff_eq.mp hedits)
  refine ⟨s, d, p, _, hs, hd, hp, hedits, (names_apart_iff hp hedits).2.mpr ?_⟩
  rintro ⟨x, hx, y, hy, hno, -⟩
  have := List.all_eq_true.mp hshorthand y hy
  simp [hno] at this

/-- A component that uses itself, and has a prop that is named in shorthand properties only. -/
def recursion : String := "export const Tip = (\x7b Hint \x7d) => <Tip a=\x7b\x7b Hint \x7d\x7d />;\n"

/-- The same component with the name of the prop. -/
def captured : String := "export const Hint = (\x7b Hint \x7d) => <Hint a=\x7b\x7b Hint \x7d\x7d />;\n"

/-- The two edits that give the component its new name. -/
def recursionEdits : List Edit := [⟨13, 16, "Hint"⟩, ⟨34, 37, "Hint"⟩]

theorem recursion_check :
    (tips.draft? recursion).any (fun r =>
      (Identifiers.edits r.2.2.plan r.2.2.source.root).toOption == some recursionEdits &&
      r.2.2.source.bytes == Utf8.encode recursion && r.2.2.source.path == "M.jsx" &&
      r.2.2.source.language == Language.ofPath "M.jsx" &&
      (names r.2.2.source.root).any (fun x => x.text == "Tip" &&
        variableAfter r.2.2.plan.renames x == "Hint") &&
      (names r.2.2.source.root).any (fun y => y.text == "Hint" &&
        variableAfter r.2.2.plan.renames y == "Hint")) = true ∧
    (Source.parse captured "M.jsx").toOption.isSome = true ∧
    Edit.spliceFrom (Utf8.encode recursion) 0 recursionEdits = Utf8.encode captured := by
  decide +kernel

/-- **A component comes to use a prop where it used itself.**  The prop is named in shorthand
properties only, so its name passes for one that is not in use. -/
theorem recursion_captured :
    ∃ s d out mid, Source.parse recursion "M.jsx" = .ok s ∧
      Descriptor.ofTree s.root s.language "M.jsx" = .ok d ∧ tips.adapt s d = .ok out ∧
      out.source.text = .ok captured ∧ tips.beforeNames s d = .ok mid ∧
      ∃ x ∈ names mid.source.root, ∃ y ∈ names mid.source.root, x.text ≠ y.text ∧
        variableAfter mid.plan.renames x = variableAfter mid.plan.renames y := by
  obtain ⟨hread, hcaptured, hsplice⟩ := recursion_check
  obtain ⟨s, d, mid, hs, hd, hmid, hcheck⟩ := exists_of_draft? hread
  simp only [Bool.and_eq_true, beq_iff_eq] at hcheck
  obtain ⟨⟨⟨⟨⟨hedits, hbytes⟩, hpath⟩, hlanguage⟩, hx⟩, hy⟩ := hcheck
  obtain ⟨t, ht⟩ := Option.isSome_iff_exists.mp hcaptured
  have hparse := ok_of_toOption ht
  have happly : mid.source.apply recursionEdits = .ok t := by
    refine Source.apply_of_pairwise (by decide) (by decide) ?_
    rw [hbytes, hpath, hlanguage]
    change Source.ofBytes (Edit.spliceFrom (Utf8.encode recursion) 0 recursionEdits) _ _ = _
    rw [hsplice]
    exact hparse
  have hadapt := adapt_tips hmid (ok_of_toOption hedits) happly
  have htext : t.text = .ok captured := by
    rw [Source.text, (Source.ofBytes_fields hparse).1, Utf8.decode_encode]
  obtain ⟨x, hxmem, hx⟩ := List.any_eq_true.mp hx
  obtain ⟨y, hymem, hy⟩ := List.any_eq_true.mp hy
  rw [Bool.and_eq_true, beq_iff_eq, beq_iff_eq] at hx hy
  refine ⟨s, d, _, mid, hs, hd, hadapt, htext, hmid, x, hxmem, y, hymem, ?_, ?_⟩
  · rw [hx.1, hy.1]
    decide
  · rw [hx.2, hy.2]

end Batch
end Transplant
