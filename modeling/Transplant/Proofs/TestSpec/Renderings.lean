import Transplant.Proofs.TestSpec.Located
import Transplant.TestSpec.Scaffold
import Mathlib.Data.List.Nodup

/-!
# What the assertions about a component render

A specification renders the component once or twice for each assertion.  All renderings are made
from one list, `TestSpec.baseProps`, which gives the props without a default and opens the gate; each
sort of assertion then leaves a prop out, or takes one out and puts it back with a value of its own.
The prop that is treated in this way can be the gate, or a handler, or none of the props that the
component is known to have.

Two facts about the common list carry the rest.  Its names are some of the names of the props, in
order, so none comes twice (`names_baseProps`), and it leaves out no prop without a default
(`mem_names_baseProps`).

* `Rendering.Complete`: a rendering that gives no prop twice and leaves out none without a default
* `Assertion.OfMount`, `Assertion.OfDefault`, `Assertion.OfCall`, `Assertion.OfGate`: what an
  assertion of each sort has to be
* `TestSpec.renderings_complete`: the specification of a component
-/

namespace Transplant

/-! ## What is asked of assertions -/

/-- The names of the props that a rendering gives. -/
def Rendering.names (r : Rendering) : List String := r.props.map (·.1)

/-- A rendering gives no prop twice, and all props without a default. -/
structure Rendering.Complete (d : Descriptor) (r : Rendering) : Prop where
  once : r.names.Nodup
  undefaulted : ∀ p ∈ d.undefaulted, p.name ∈ r.names

/-- The renderings of an assertion. -/
def Assertion.renderings (a : Assertion) : List Rendering := a.render :: a.baseline.toList

namespace Assertion

/-- The component renders. -/
structure OfMount (a : Assertion) : Prop where
  kind : a.kind = .smoke
  baseline : a.baseline = none
  event : a.event = none
  probe : a.probe = ⟨.mounted, a.render.binding⟩
  expected : a.expected = .bool true
  negate : a.negate = false

/-- A prop makes no difference if it has the value of its default: it is left out of the rendering,
and the baseline gives it in addition to what the rendering gives. -/
structure OfDefault (p : PropSpec) (a : Assertion) : Prop where
  kind : a.kind = .default
  omitted : p.name ∉ a.render.names
  added : ∃ baseline, a.baseline = some baseline ∧
    baseline.props = a.render.props ++ [(p.name, .source (TestSpec.defaultValue p))] ∧
    a.expected = .probe ⟨.markup, baseline.binding⟩
  event : a.event = none
  probe : a.probe = ⟨.markup, a.render.binding⟩
  negate : a.negate = false

/-- An event calls its handler once: the handler is given once, as the mock that is counted. -/
structure OfCall (i : Interaction) (a : Assertion) : Prop where
  kind : a.kind = .interaction
  baseline : a.baseline = none
  event : a.event = some ⟨a.render.binding, i.locator, i.event⟩
  counted : ∃ mock, a.probe = ⟨.callCount, mock⟩ ∧
    a.render.props.filter (·.1 == i.handlerProp) = [(i.handlerProp, .handler mock)]
  expected : a.expected = .int 1
  negate : a.negate = false

/-- The component shows something with the gate open, and nothing with it closed: the renderings are
the same but for the value of the gate, and both are compared with no markup. -/
structure OfGate (g : Gate) (shown hidden : Assertion) : Prop where
  kind : shown.kind = .visibility ∧ hidden.kind = .visibility
  baseline : shown.baseline = none ∧ hidden.baseline = none
  event : shown.event = none ∧ hidden.event = none
  binding : shown.render.binding = hidden.render.binding
  gate : ∃ common : List (String × PropValue), g.prop ∉ common.map (·.1) ∧
    shown.render.props = common ++ [(g.prop, .boolean g.rendersWhen)] ∧
    hidden.render.props = common ++ [(g.prop, .boolean !g.rendersWhen)]
  probe : shown.probe = ⟨.markup, shown.render.binding⟩ ∧
    hidden.probe = ⟨.markup, hidden.render.binding⟩
  expected : shown.expected = .text "" ∧ hidden.expected = .text ""
  negate : shown.negate = true ∧ hidden.negate = false

end Assertion

namespace TestSpec

variable {d : Descriptor} {showGate : Bool} {keep : PropSpec → Bool} {p : PropSpec}

/-! ## The common list -/

theorem isSome_baseValue? (gate : Option Gate) (h : p.hasDefault = false) :
    (baseValue? gate showGate p).isSome = true := by
  unfold baseValue?
  split
  · rfl
  · rw [h]
    rfl

/-- The names of the common list are those of the props that get a value in it. -/
theorem names_baseProps (d : Descriptor) (showGate : Bool) (keep : PropSpec → Bool) :
    (baseProps d showGate keep).map (·.1) =
      ((d.props.filter keep).filter fun p =>
        (baseValue? d.visibility showGate p).isSome).map (·.name) := by
  unfold baseProps
  generalize d.props.filter keep = l
  induction l with
  | nil => rfl
  | cons p rest ih =>
    cases hvalue : baseValue? d.visibility showGate p with
    | none => simp [hvalue, ih]
    | some value => simp [hvalue, ih]

theorem nodup_baseProps (h : (d.props.map (·.name)).Nodup) :
    ((baseProps d showGate keep).map (·.1)).Nodup := by
  rw [names_baseProps]
  exact h.sublist ((List.filter_sublist.trans List.filter_sublist).map _)

theorem mem_names_baseProps (hp : p ∈ d.undefaulted) (hkeep : keep p = true) :
    p.name ∈ (baseProps d showGate keep).map (·.1) := by
  obtain ⟨hmem, hno⟩ := List.mem_filter.mp hp
  rw [names_baseProps]
  refine List.mem_map_of_mem (List.mem_filter.mpr ⟨List.mem_filter.mpr ⟨hmem, hkeep⟩, ?_⟩)
  exact isSome_baseValue? _ (by simpa using hno)

theorem notMem_names_baseProps {name : String} (hkeep : ∀ q, keep q = true → q.name ≠ name) :
    name ∉ (baseProps d showGate keep).map (·.1) := by
  rw [names_baseProps]
  intro h
  obtain ⟨q, hq, hname⟩ := List.mem_map.mp h
  exact hkeep q (List.mem_filter.mp (List.mem_filter.mp hq).1).2 hname

theorem complete_baseProps (h : (d.props.map (·.name)).Nodup) (binding : String)
    (hkeep : ∀ q ∈ d.undefaulted, keep q = true) :
    Rendering.Complete d ⟨binding, baseProps d showGate keep⟩ where
  once := nodup_baseProps h
  undefaulted q hq := mem_names_baseProps hq (hkeep q hq)

/-! ## One prop treated apart -/

theorem nodup_names_concat {props : List (String × PropValue)} {name : String} {value : PropValue}
    (h : (props.map (·.1)).Nodup) (hname : name ∉ props.map (·.1)) :
    ((props ++ [(name, value)]).map (·.1)).Nodup := by
  rw [List.map_append]
  exact h.append (List.nodup_singleton _) (List.disjoint_singleton.mpr hname)

/-- A prop that is not in a rendering can be added to it. -/
theorem complete_concat {binding binding' name : String} {value : PropValue}
    {props : List (String × PropValue)} (h : Rendering.Complete d ⟨binding, props⟩)
    (hname : name ∉ props.map (·.1)) :
    Rendering.Complete d ⟨binding', props ++ [(name, value)]⟩ where
  once := nodup_names_concat h.once hname
  undefaulted q hq := by
    rw [Rendering.names, List.map_append]
    exact List.mem_append_left _ (h.undefaulted q hq)

/-- The props that keep their values when one is treated apart. -/
def others (d : Descriptor) (name : String) : List (String × PropValue) :=
  (baseProps d true fun _ => true).filter (·.1 != name)

theorem withProp_eq (d : Descriptor) (name : String) (value : PropValue) :
    withProp d name value = others d name ++ [(name, value)] := rfl

theorem notMem_names_others (d : Descriptor) (name : String) :
    name ∉ (others d name).map (·.1) := by
  intro h
  obtain ⟨e, he, hname⟩ := List.mem_map.mp h
  exact absurd hname (by simpa using (List.mem_filter.mp he).2)

theorem filter_withProp (d : Descriptor) (name : String) (value : PropValue) :
    (withProp d name value).filter (·.1 == name) = [(name, value)] := by
  have hnone : (others d name).filter (·.1 == name) = [] := by
    rw [List.filter_eq_nil_iff]
    intro e he
    simpa using (List.mem_filter.mp he).2
  rw [withProp_eq, List.filter_append, hnone]
  simp

/-- A rendering stays complete when one prop gets a value of its own, whether the component is known
to have this prop or not. -/
theorem complete_withProp (h : (d.props.map (·.name)).Nodup) (binding name : String)
    (value : PropValue) : Rendering.Complete d ⟨binding, withProp d name value⟩ where
  once := nodup_names_concat ((nodup_baseProps h).sublist (List.filter_sublist.map _))
    (notMem_names_others d name)
  undefaulted q hq := by
    rw [Rendering.names, withProp_eq, List.map_append, List.map_singleton, List.mem_append]
    by_cases hname : q.name = name
    · exact .inr (List.mem_singleton.mpr hname)
    · have hbase : q.name ∈ (baseProps d true fun _ => true).map (·.1) :=
        mem_names_baseProps hq rfl
      obtain ⟨e, he, hsame⟩ := List.mem_map.mp hbase
      refine .inl (List.mem_map.mpr ⟨e, List.mem_filter.mpr ⟨he, ?_⟩, hsame⟩)
      simpa [hsame] using hname

/-! ## The sorts of assertions -/

theorem ofMount_smoke (d : Descriptor) : (smoke d).OfMount := ⟨rfl, rfl, rfl, rfl, rfl, rfl⟩

theorem ofDefault_defaultCase (d : Descriptor) (p : PropSpec) : (defaultCase d p).OfDefault p where
  kind := rfl
  omitted := notMem_names_baseProps fun q hq => by simpa using hq
  added := ⟨_, rfl, rfl, rfl⟩
  event := rfl
  probe := rfl
  negate := rfl

theorem ofCall_interactionCase (d : Descriptor) (i : Interaction) :
    (interactionCase d i).OfCall i where
  kind := rfl
  baseline := rfl
  event := rfl
  counted := ⟨_, rfl, filter_withProp d i.handlerProp _⟩
  expected := rfl
  negate := rfl

theorem ofGate_visibilityCase (d : Descriptor) (g : Gate) :
    Assertion.OfGate g (visibilityCase d g true) (visibilityCase d g false) where
  kind := ⟨rfl, rfl⟩
  baseline := ⟨rfl, rfl⟩
  event := ⟨rfl, rfl⟩
  binding := rfl
  gate := ⟨others d g.prop, notMem_names_others d g.prop, rfl, rfl⟩
  probe := ⟨rfl, rfl⟩
  expected := ⟨rfl, rfl⟩
  negate := ⟨rfl, rfl⟩

/-- A prop with a default is left out, and no other prop has its name. -/
theorem complete_defaultCase (h : (d.props.map (·.name)).Nodup) (hp : p ∈ d.defaulted) :
    ∀ r ∈ (defaultCase d p).renderings, r.Complete d := by
  obtain ⟨hmem, hdefault⟩ := List.mem_filter.mp hp
  have hkeep : ∀ q ∈ d.undefaulted, (q.name != p.name) = true := by
    intro q hq
    obtain ⟨hqmem, hqno⟩ := List.mem_filter.mp hq
    refine bne_iff_ne.mpr fun hname => ?_
    obtain rfl := List.inj_on_of_nodup_map h hqmem hmem hname
    simp [hdefault] at hqno
  have hrender : ∀ binding, Rendering.Complete d ⟨binding, baseProps d true (·.name != p.name)⟩ :=
    fun binding => complete_baseProps h binding hkeep
  intro r hr
  rcases List.mem_cons.mp hr with rfl | hr
  · exact hrender _
  · rw [List.mem_singleton.mp hr]
    exact complete_concat (hrender "omitted") (ofDefault_defaultCase d p).omitted

theorem complete_of_mem (h : (d.props.map (·.name)).Nodup) {a : Assertion}
    (ha : a ∈ (ofDescriptor d).assertions) : ∀ r ∈ a.renderings, r.Complete d := by
  rcases List.mem_cons.mp ha with rfl | ha
  · intro r hr
    rw [List.mem_singleton.mp hr]
    exact complete_baseProps h _ fun _ _ => rfl
  rcases List.mem_append.mp ha with ha | ha
  · obtain ⟨p, hp, rfl⟩ := List.mem_map.mp ha
    exact complete_defaultCase h hp
  rcases List.mem_append.mp ha with ha | ha
  · obtain ⟨i, -, rfl⟩ := List.mem_map.mp ha
    intro r hr
    rw [List.mem_singleton.mp hr]
    exact complete_withProp h _ _ _
  · unfold visibilityCases at ha
    split at ha
    · rename_i g _
      simp only [List.mem_cons, List.not_mem_nil, or_false] at ha
      rcases ha with rfl | rfl
      all_goals
        intro r hr
        rw [List.mem_singleton.mp hr]
        exact complete_withProp h _ _ _
    · cases ha

/-! ## Warnings -/

theorem forall₂_defaultWarning? (l : List PropSpec) :
    List.Forall₂ (fun p w => defaultWarning? p = some w) (l.filter fun p => !p.selfContained)
      (l.filterMap defaultWarning?) := by
  induction l with
  | nil => exact .nil
  | cons p rest ih =>
    cases hself : p.selfContained with
    | true => simpa [List.filter_cons, List.filterMap_cons, defaultWarning?, hself] using ih
    | false =>
      have hwarning : ∃ w, defaultWarning? p = some w := by simp [defaultWarning?, hself]
      obtain ⟨w, hw⟩ := hwarning
      rw [List.filter_cons_of_pos (by simp [hself]), List.filterMap_cons_some hw]
      exact .cons hw ih

/-! ## The specification of a component -/

/-- **The assertions about a component, and what they render.**  If no two props have one name, the
component is first rendered at all; then there is one assertion for each prop with a default, in the
order of the props, one for each event on an element that a test can find, in order, and two for the
gate, if there is one.  Each default that cannot be written in a test and each element that cannot
be found has a warning.  Every rendering gives no prop twice, and all props without a default. -/
theorem renderings_complete (d : Descriptor) (h : (d.props.map (·.name)).Nodup) :
    (∃ mount defaults calls gates,
      (ofDescriptor d).assertions = mount :: (defaults ++ (calls ++ gates)) ∧
      mount.OfMount ∧
      List.Forall₂ Assertion.OfDefault d.defaulted defaults ∧
      List.Forall₂ Assertion.OfCall (d.interactions.filter (·.locatable)) calls ∧
      (d.visibility = none → gates = []) ∧
      ∀ g, d.visibility = some g →
        ∃ shown hidden, gates = [shown, hidden] ∧ Assertion.OfGate g shown hidden) ∧
    (∃ warned unreached,
      (ofDescriptor d).warnings = warned ++ unreached ∧
      List.Forall₂ (fun p w => defaultWarning? p = some w)
        (d.defaulted.filter fun p => !p.selfContained) warned ∧
      List.Forall₂ (fun i w => interactionWarning i = w)
        (d.interactions.filter fun i => !i.locatable) unreached) ∧
    ∀ a ∈ (ofDescriptor d).assertions, ∀ r ∈ a.renderings, r.Complete d := by
  refine ⟨⟨smoke d, _, _, _, rfl, ofMount_smoke d, ?_, ?_, fun hgate => ?_, fun g hgate => ?_⟩,
    ⟨_, _, rfl, forall₂_defaultWarning? _, ?_⟩, fun a ha => complete_of_mem h ha⟩
  · exact List.forall₂_map_right_iff.mpr (List.forall₂_same.mpr fun p _ => ofDefault_defaultCase d p)
  · exact List.forall₂_map_right_iff.mpr (List.forall₂_same.mpr fun i _ => ofCall_interactionCase d i)
  · rw [visibilityCases, hgate]
  · rw [visibilityCases, hgate]
    exact ⟨_, _, rfl, ofGate_visibilityCase d g⟩
  · exact List.forall₂_map_right_iff.mpr (List.forall₂_same.mpr fun i _ => rfl)

/-- A component whose gate has a default, and whose handler is not among its props. -/
def drawer : Descriptor where
  name := "Drawer"
  sourcePath := "Drawer.jsx"
  props := [{ name := "title" },
    { name := "open", hasDefault := true, defaultText := some "false", required := false,
      kind := .boolean, defaultSource := some .parameter },
    { name := "size", hasDefault := true, defaultText := some "LARGE", required := false,
      defaultSource := some .parameter, selfContained := false }]
  interactions := [{ event := "click", handlerProp := "onClose", element := "button" },
    { event := "press", handlerProp := "onPress", element := "Knob" }]
  visibility := some ⟨"open", true⟩

theorem drawer_renderings : (drawer.props.map (·.name)).Nodup ∧
    (ofDescriptor drawer).assertions.length = 6 ∧ (ofDescriptor drawer).warnings.length = 2 ∧
    ∀ a ∈ (ofDescriptor drawer).assertions, ∀ r ∈ a.renderings, r.Complete drawer := by
  have hnodup : (drawer.props.map (·.name)).Nodup := by decide
  exact ⟨hnodup, by decide, by decide, (renderings_complete drawer hnodup).2.2⟩

end TestSpec
end Transplant
