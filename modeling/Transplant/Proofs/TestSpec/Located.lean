import Transplant.Proofs.Migration.Product
import Transplant.TestSpec.Module

/-!
# Which elements a test can find

Whether a test can find an element is decided twice.  The specification of a component leaves out
the events on elements that nothing is known to find by (`Interaction.locatable`), and the module
refuses to write an event on an element that it has nothing to find by (`TestModule.located`).

The two differ in one place.  The specification takes a test id to be enough.  The module can only
use it if it has been told of an attribute that test ids stand in, and without one it falls back on
the root and on the text.  So the events that the module refuses are those on components of which
nothing but a test id is known (`Interaction.OnlyById`), and it refuses them only when it knows of no
attribute (`TestModule.failure?_located`).

* `failure?_mapM`: a list fails where the first of its elements fails
* `TestModule.failure?_ofSpec`: which element a module is refused for
* `TestModule.Tells`: the lines of a case
* `TestModule.ofSpec_ofDescriptor`: when a module is refused, and what it is otherwise
-/

namespace Transplant

theorem Text.join_eq_intercalate (sep : String) (l : List String) :
    join sep l = sep.intercalate l := by
  induction l with
  | nil => rfl
  | cons s rest ih =>
    cases rest with
    | nil => rw [join, String.intercalate_singleton]
    | cons t rest => rw [join, ih, String.intercalate_cons_cons]; exact List.cons_ne_nil t rest

section Except

variable {ε α β : Type}

/-- The error, if there is one. -/
def failure? : Except ε α → Option ε
  | .ok _ => none
  | .error e => some e

@[simp] theorem failure?_ok (a : α) : failure? (.ok a : Except ε α) = none := rfl

@[simp] theorem failure?_error (e : ε) : failure? (.error e : Except ε α) = some e := rfl

theorem failure?_eq_some_iff {x : Except ε α} {e : ε} : failure? x = some e ↔ x = .error e := by
  cases x <;> simp

theorem failure?_eq_none_iff_forall_ne {x : Except ε α} : failure? x = none ↔ ∀ e, x ≠ .error e := by
  cases x <;> simp

@[simp] theorem failure?_map (f : α → β) (x : Except ε α) : failure? (x.map f) = failure? x := by
  cases x <;> rfl

/-- Going through a list fails where the first of its elements fails. -/
theorem failure?_mapM (f : α → Except ε β) (l : List α) :
    failure? (l.mapM f) = l.findSome? fun x => failure? (f x) := by
  induction l with
  | nil => rfl
  | cons x rest ih =>
    rw [List.mapM_cons, List.findSome?_cons, ← ih]
    cases f x with
    | error e => rfl
    | ok y => cases rest.mapM f <;> rfl

end Except

/-! ## One element -/

namespace Interaction

/-- What is known to find the element by. -/
def locator (i : Interaction) : Locator := ⟨i.element, i.testId, i.text, i.root⟩

/-- The element is a component of which nothing but a test id is known. -/
structure OnlyById (i : Interaction) : Prop where
  composite : i.composite = true
  testId : i.testId.isSome = true
  root : i.root = false
  text : i.text = none

theorem onlyById_iff {i : Interaction} :
    i.OnlyById ↔
      i.composite = true ∧ i.testId.isSome = true ∧ i.root = false ∧ i.text = none :=
  ⟨fun h => ⟨h.1, h.2, h.3, h.4⟩, fun h => ⟨h.1, h.2.1, h.2.2.1, h.2.2.2⟩⟩

instance (i : Interaction) : Decidable i.OnlyById := decidable_of_iff _ onlyById_iff.symm

theorem locatable_eq_false_iff {i : Interaction} :
    i.locatable = false ↔
      i.composite = true ∧ ¬i.testId.isSome = true ∧ i.root = false ∧ i.text = none := by
  simp [locatable, and_assoc]

theorem OnlyById.locatable {i : Interaction} (h : i.OnlyById) : i.locatable = true := by
  simp [Interaction.locatable, h.testId]

end Interaction

namespace TestModule

variable {attr : Option String}

/-- No attribute is known that test ids stand in. -/
def Unmarked (attr : Option String) : Prop := attr = none ∨ attr = some ""

instance : Decidable (Unmarked attr) := inferInstanceAs (Decidable (_ ∨ _))

theorem isSome_marked?_iff {l : Locator} :
    (marked? attr l).isSome = true ↔ ¬Unmarked attr ∧ l.testId.isSome = true := by
  obtain _ | attr := attr
  · simp [marked?, Unmarked]
  · obtain ⟨_, _ | id, _, _⟩ := l
    · simp [marked?]
    · by_cases hempty : attr = "" <;> simp [marked?, Unmarked, Option.filter, hempty]

theorem located_eq_error_iff {binding : String} {l : Locator} {e : Unlocatable} :
    located attr binding l = .error e ↔
      (l.composite = true ∧ ¬(marked? attr l).isSome = true ∧ l.root = false ∧ l.text = none) ∧
        e = ⟨l.element⟩ := by
  unfold located
  split
  next hfound => grind
  next hfound =>
    rw [Bool.or_eq_true, Bool.not_eq_true', not_or] at hfound
    cases hroot : l.root <;> cases htext : l.text <;> simp [hfound, eq_comm]

/-- **Where the specification and the module differ.**  The module has nothing to find an element by
if the specification knows of nothing, or if it knows of nothing but a test id and no attribute is
known that test ids stand in. -/
theorem located_locator_eq_error_iff {binding : String} {i : Interaction} {e : Unlocatable} :
    located attr binding i.locator = .error e ↔
      (i.locatable = false ∨ (Unmarked attr ∧ i.OnlyById)) ∧ e = ⟨i.element⟩ := by
  rw [located_eq_error_iff, isSome_marked?_iff, Interaction.locatable_eq_false_iff,
    Interaction.onlyById_iff]
  change (i.composite = true ∧ ¬(¬Unmarked attr ∧ i.testId.isSome = true) ∧ i.root = false ∧
    i.text = none) ∧ _ ↔ _
  refine and_congr_left' ?_
  by_cases hattr : Unmarked attr <;> by_cases hid : i.testId.isSome = true <;> simp [hattr, hid]

theorem failure?_located {binding : String} {i : Interaction} (h : i.locatable = true) :
    failure? (located attr binding i.locator) =
      if Unmarked attr ∧ i.OnlyById then some ⟨i.element⟩ else none := by
  split
  next hrefused =>
    rw [failure?_eq_some_iff, located_locator_eq_error_iff]
    exact ⟨.inr hrefused, rfl⟩
  next hfound =>
    rw [failure?_eq_none_iff_forall_ne]
    rintro e he
    rw [located_locator_eq_error_iff, h] at he
    exact he.1.elim nofun hfound

/-! ## One assertion -/

theorem failure?_caseOf_of_event_eq_none {component : String} {a : Assertion}
    (h : a.event = none) : failure? (caseOf attr component a) = none := by
  simp only [caseOf, failure?_map, statements, h]
  rfl

theorem failure?_caseOf_of_event_eq_some {component : String} {a : Assertion} {s : Simulation}
    (h : a.event = some s) :
    failure? (caseOf attr component a) = failure? (located attr s.binding s.locator) := by
  simp only [caseOf, failure?_map, statements, h, simulation]
  cases located attr s.binding s.locator <;> rfl

theorem failure?_caseOf_interactionCase (component : String) (d : Descriptor) (i : Interaction) :
    failure? (caseOf attr component (TestSpec.interactionCase d i)) =
      failure? (located attr "view" i.locator) := by
  have hevent : (TestSpec.interactionCase d i).event = some ⟨"view", i.locator, i.event⟩ := rfl
  rw [failure?_caseOf_of_event_eq_some hevent]

theorem event_eq_none_of_mem_visibilityCases {d : Descriptor} {a : Assertion}
    (h : a ∈ TestSpec.visibilityCases d) : a.event = none := by
  unfold TestSpec.visibilityCases at h
  split at h
  · rcases List.mem_pair.mp h with rfl | rfl <;> rfl
  · cases h

/-! ## All assertions -/

/-- Of the events of a component, the first one is refused that leads to a component of which
nothing but a test id is known. -/
theorem findSome?_located (binding : String) (interactions : List Interaction) :
    ((interactions.filter (·.locatable)).findSome? fun i =>
        failure? (located attr binding i.locator)) =
      if Unmarked attr then
        (interactions.find? fun i => i.OnlyById).map fun i => ⟨i.element⟩
      else none := by
  induction interactions with
  | nil => simp
  | cons i rest ih =>
    by_cases hlocatable : i.locatable = true
    · rw [List.filter_cons_of_pos hlocatable, List.findSome?_cons, failure?_located hlocatable, ih,
        List.find?_cons]
      by_cases hattr : Unmarked attr <;> by_cases honly : i.OnlyById <;> simp [hattr, honly]
    · have honly : ¬i.OnlyById := fun h => hlocatable h.locatable
      rw [List.filter_cons_of_neg hlocatable, ih, List.find?_cons_of_neg (by simpa using honly)]

/-- **Only events are refused,** and of these the first one that leads to a component of which
nothing but a test id is known, when no attribute is known. -/
theorem failure?_ofSpec (attr : Option String) (d : Descriptor) (component importPath : String) :
    failure? (ofSpec attr (TestSpec.ofDescriptor d) component importPath) =
      if Unmarked attr then
        (d.interactions.find? fun i => i.OnlyById).map fun i => ⟨i.element⟩
      else none := by
  have hsmoke : failure? (caseOf attr component (TestSpec.smoke d)) = none :=
    failure?_caseOf_of_event_eq_none rfl
  have hdefaults : ((d.defaulted.map (TestSpec.defaultCase d)).findSome? fun a =>
      failure? (caseOf attr component a)) = none := by
    rw [List.findSome?_eq_none_iff, List.forall_mem_map]
    exact fun p hp => failure?_caseOf_of_event_eq_none rfl
  have hvisibility : ((TestSpec.visibilityCases d).findSome? fun a =>
      failure? (caseOf attr component a)) = none := by
    rw [List.findSome?_eq_none_iff]
    exact fun a ha => failure?_caseOf_of_event_eq_none (event_eq_none_of_mem_visibilityCases ha)
  rw [ofSpec, failure?_map, failure?_mapM, TestSpec.ofDescriptor, List.findSome?_cons, hsmoke,
    List.findSome?_append, hdefaults, Option.none_or, List.findSome?_append, hvisibility,
    Option.or_none, List.findSome?_map, ← findSome?_located "view"]
  simp only [Function.comp_def, failure?_caseOf_interactionCase]

/-! ## What a module holds -/

/-- The lines of the case of an assertion: the component is rendered, and once more if there is a
rendering to compare with, the event happens, and what is observed is compared. -/
def Tells (attr : Option String) (component : String) (a : Assertion) (lines : List String) :
    Prop :=
  ∃ events, lines = renderCall component a.render ++
      (a.baseline.map (renderCall component)).getD [] ++ events ++
        equality a.probe a.expected a.negate ∧
    match a.event with
    | none => events = []
    | some s => ∃ target, located attr s.binding s.locator = .ok target ∧
        events = ["fireEvent." ++ s.event ++ "(" ++ target ++ ");"]

theorem tells_of_statements {component : String} {a : Assertion} {lines : List String}
    (h : statements attr component a = .ok lines) : Tells attr component a lines := by
  unfold statements at h
  unfold Tells
  cases hevent : a.event with
  | none =>
    rw [hevent] at h
    exact ⟨[], (Except.ok.inj h).symm, rfl⟩
  | some s =>
    rw [hevent] at h
    simp only [simulation] at h
    cases htarget : located attr s.binding s.locator with
    | error e => rw [htarget] at h; cases h
    | ok target =>
      rw [htarget] at h
      exact ⟨_, (Except.ok.inj h).symm, target, htarget, rfl⟩

theorem testCase_eq (name : String) (lines : List String) :
    testCase name lines = "  it(" ++ Literal.ofText name ++ ", () => \x7b\n" ++
      "\n".intercalate (lines.map ("    " ++ ·)) ++ "\n  \x7d);" := by
  rw [testCase, Text.join_eq_intercalate]

theorem file_eq (component importPath : String) (exportKind : ExportKind) (cases : List String) :
    file component importPath exportKind cases =
      "import React from 'react';\n" ++
        "import \x7b render, fireEvent, within \x7d from '@testing-library/react';\n" ++
        ("import " ++ (if exportKind = .named then "\x7b " ++ component ++ " \x7d" else component) ++
          " from " ++ Literal.ofText importPath ++ ";") ++
        "\n\ndescribe(" ++ Literal.ofText component ++ ", () => \x7b\n" ++
        "\n\n".intercalate cases ++ "\n\x7d);\n" := by
  unfold file
  rw [Text.join_eq_intercalate]
  cases exportKind with
  | default => rfl
  | named => rfl

/-- The cases of a module come from the assertions, one from each, in order. -/
theorem exists_blocks {component : String} {assertions : List Assertion} {cases : List String}
    (h : assertions.mapM (caseOf attr component) = .ok cases) :
    ∃ blocks, List.Forall₂ (Tells attr component) assertions blocks ∧
      cases = List.zipWith (fun a lines => testCase a.name lines) assertions blocks := by
  have hcases := forall₂_of_mapM h
  clear h
  induction hcases with
  | nil => exact ⟨[], .nil, rfl⟩
  | @cons a text rest texts hcase _ ih =>
    obtain ⟨blocks, hblocks, rfl⟩ := ih
    unfold caseOf at hcase
    cases hlines : statements attr component a with
    | error e => rw [hlines] at hcase; cases hcase
    | ok lines =>
      rw [hlines] at hcase
      obtain rfl := Except.ok.inj hcase
      exact ⟨lines :: blocks, .cons (tells_of_statements hlines) hblocks, rfl⟩

/-- **When the module of a component is refused, and what it is otherwise.**  For every component
and every attribute, the module is refused exactly if no attribute is known and there is an event on
a component that has a test id, is not the root and has no text.  In all other cases the text of the
module has one test case for each assertion of the specification, in order. -/
theorem ofSpec_ofDescriptor (attr : Option String) (d : Descriptor)
    (component importPath : String) :
    ((∃ e, ofSpec attr (TestSpec.ofDescriptor d) component importPath = .error e) ↔
      (attr = none ∨ attr = some "") ∧
        ∃ i ∈ d.interactions, i.composite = true ∧ i.testId.isSome = true ∧ i.root = false ∧
          i.text = none) ∧
    (¬((attr = none ∨ attr = some "") ∧
        ∃ i ∈ d.interactions, i.composite = true ∧ i.testId.isSome = true ∧ i.root = false ∧
          i.text = none) →
      ∃ blocks,
        List.Forall₂ (Tells attr component) (TestSpec.ofDescriptor d).assertions blocks ∧
        ofSpec attr (TestSpec.ofDescriptor d) component importPath = .ok
          ("import React from 'react';\n" ++
            "import \x7b render, fireEvent, within \x7d from '@testing-library/react';\n" ++
            ("import " ++
              (if d.exportKind = .named then "\x7b " ++ component ++ " \x7d" else component) ++
              " from " ++ Literal.ofText importPath ++ ";") ++
            "\n\ndescribe(" ++ Literal.ofText component ++ ", () => \x7b\n" ++
            "\n\n".intercalate (List.zipWith (fun a lines =>
              "  it(" ++ Literal.ofText a.name ++ ", () => \x7b\n" ++
                "\n".intercalate (lines.map ("    " ++ ·)) ++ "\n  \x7d);")
              (TestSpec.ofDescriptor d).assertions blocks) ++
            "\n\x7d);\n")) := by
  have hrefused : (∃ e, ofSpec attr (TestSpec.ofDescriptor d) component importPath = .error e) ↔
      (attr = none ∨ attr = some "") ∧
        ∃ i ∈ d.interactions, i.composite = true ∧ i.testId.isSome = true ∧ i.root = false ∧
          i.text = none := by
    simp only [← failure?_eq_some_iff, ← Interaction.onlyById_iff, ← Option.isSome_iff_exists,
      failure?_ofSpec]
    by_cases hattr : attr = none ∨ attr = some "" <;> simp [Unmarked, hattr]
  refine ⟨hrefused, fun hno => ?_⟩
  rw [← hrefused, not_exists] at hno
  unfold ofSpec at hno ⊢
  cases hcases : (TestSpec.ofDescriptor d).assertions.mapM (caseOf attr component) with
  | error e => exact absurd (by rw [hcases]; rfl) (hno e)
  | ok cases =>
    obtain ⟨blocks, hblocks, rfl⟩ := exists_blocks hcases
    refine ⟨blocks, hblocks, ?_⟩
    simp only [← testCase_eq, ← file_eq]
    rfl

/-- A component with a default, and with an event on a component that has nothing but a test id. -/
def tip : Descriptor where
  name := "Tip"
  sourcePath := "Tip.jsx"
  props := [{ name := "text", hasDefault := true, defaultText := some "'hint'" },
    { name := "onOpen", kind := .function }]
  exportKind := .named
  interactions := [⟨"click", "onOpen", "Icon", some "open", none, false⟩]

/-- The module of the component. -/
def tipModule : String :=
  "import React from 'react';\n" ++
  "import \x7b render, fireEvent, within \x7d from '@testing-library/react';\n" ++
  "import \x7b Tip \x7d from './Tip';\n" ++
  "\n" ++
  "describe('Tip', () => \x7b\n" ++
  "  it('renders without crashing', () => \x7b\n" ++
  "    const \x7b container: view \x7d = render(<Tip onOpen=\x7b() => \x7b\x7d\x7d />);\n" ++
  "    expect(view.isConnected).toBe(true);\n" ++
  "  \x7d);\n" ++
  "\n" ++
  "  it('uses the default value of text', () => \x7b\n" ++
  "    const \x7b container: omitted \x7d = render(<Tip onOpen=\x7b() => \x7b\x7d\x7d />);\n" ++
  "    const \x7b container: explicit \x7d = " ++
  "render(<Tip onOpen=\x7b() => \x7b\x7d\x7d text=\x7b'hint'\x7d />);\n" ++
  "    expect(omitted.innerHTML).toBe(explicit.innerHTML);\n" ++
  "  \x7d);\n" ++
  "\n" ++
  "  it('calls onOpen on click of Icon', () => \x7b\n" ++
  "    const onOpenMock = jest.fn();\n" ++
  "    const \x7b container: view \x7d = render(<Tip onOpen=\x7bonOpenMock\x7d />);\n" ++
  "    fireEvent.click(view.querySelector('[data-testid=\"open\"]'));\n" ++
  "    expect(onOpenMock.mock.calls.length).toBe(1);\n" ++
  "  \x7d);\n" ++
  "\x7d);\n"

/-- The event is refused without an attribute, and with one there are three cases. -/
theorem tip_refused_without_attribute :
    (∃ e, ofSpec none (TestSpec.ofDescriptor tip) "Tip" "./Tip" = .error e) ∧
      ofSpec (some "data-testid") (TestSpec.ofDescriptor tip) "Tip" "./Tip" = .ok tipModule := by
  refine ⟨(ofSpec_ofDescriptor none tip "Tip" "./Tip").1.mpr
    ⟨.inl rfl, _, List.mem_singleton_self _, by decide⟩, ?_⟩
  obtain ⟨blocks, hblocks, hmodule⟩ :=
    (ofSpec_ofDescriptor (some "data-testid") tip "Tip" "./Tip").2 fun h => absurd h.1 (by decide)
  -- the assertions determine the lines of their cases
  obtain _ | ⟨⟨_, rfl, rfl⟩, hblocks⟩ := hblocks
  obtain _ | ⟨⟨_, rfl, rfl⟩, hblocks⟩ := hblocks
  obtain _ | ⟨⟨_, rfl, target, htarget, rfl⟩, hblocks⟩ := hblocks
  obtain _ | _ := hblocks
  obtain rfl : "view.querySelector('[data-testid=\"open\"]')" = target :=
    Except.ok.inj htarget
  rw [hmodule]
  exact congrArg _ (by decide +kernel)

end TestModule
end Transplant
