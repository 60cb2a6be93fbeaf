import Transplant.TestSpec.Basic

/-!
# The test specification of a component

Derived from the descriptor alone: the component renders at all; a prop with a default behaves as
if the default had been given; an event calls its handler once; and the component shows something
or nothing as its gate says.

* `TestSpec.ofDescriptor`: all assertions in that order, with warnings for what they leave out
-/

namespace Transplant
namespace TestSpec

/-- The value of a prop in a rendering that says nothing about it: its gate value if it is the gate,
a placeholder if it has no default. -/
def baseValue? (gate : Option Gate) (showGate : Bool) (p : PropSpec) : Option PropValue :=
  match gate.filter fun g => g.prop == p.name && (showGate || !p.hasDefault) with
  | some g => some (.boolean g.rendersWhen)
  | none => if p.hasDefault then none else some (.placeholder p.kind)

/-- The props of a rendering in which the gate is open. Without `showGate` a gate that has a default
is left to it. -/
def baseProps (d : Descriptor) (showGate : Bool) (keep : PropSpec → Bool) :
    List (String × PropValue) :=
  (d.props.filter keep).filterMap fun p => (baseValue? d.visibility showGate p).map (p.name, ·)

/-- The component renders. -/
def smoke (d : Descriptor) : Assertion where
  name := "renders without crashing"
  kind := .smoke
  render := ⟨"view", baseProps d false fun _ => true⟩
  probe := ⟨.mounted, "view"⟩
  expected := .bool true

/-- The default of a prop as it can be written in a test. -/
def defaultValue (p : PropSpec) : String :=
  match p.defaultText with
  | some text => if text ≠ "" && p.selfContained then text else "undefined"
  | none => "undefined"

/-- Leaving a prop out is the same as giving its default. -/
def defaultCase (d : Descriptor) (p : PropSpec) : Assertion :=
  let base := baseProps d true fun q => q.name != p.name
  { name := "uses the default value of " ++ p.name
    kind := .default
    render := ⟨"omitted", base⟩
    baseline := some ⟨"explicit", base ++ [(p.name, .source (defaultValue p))]⟩
    probe := ⟨.markup, "omitted"⟩
    expected := .probe ⟨.markup, "explicit"⟩ }

/-- The warning for a default that a test cannot write. -/
def defaultWarning? (p : PropSpec) : Option String :=
  if p.selfContained then none
  else some (s!"Default of '{p.name}' (" ++ p.defaultText.getD "None" ++
    ") reads names declared elsewhere; its test passes undefined instead of the default value")

/-- The props of a rendering in which one prop has a given value, which comes last. -/
def withProp (d : Descriptor) (name : String) (value : PropValue) : List (String × PropValue) :=
  (baseProps d true fun _ => true).filter (·.1 != name) ++ [(name, value)]

/-- An event calls its handler once. -/
def interactionCase (d : Descriptor) (i : Interaction) : Assertion :=
  let mock := i.handlerProp ++ "Mock"
  { name := s!"calls {i.handlerProp} on {i.event} of {i.element}"
    kind := .interaction
    render := ⟨"view", withProp d i.handlerProp (.handler mock)⟩
    event := some ⟨"view", ⟨i.element, i.testId, i.text, i.root⟩, i.event⟩
    probe := ⟨.callCount, mock⟩
    expected := .int 1 }

/-- The warning for an element that a test cannot find. -/
def interactionWarning (i : Interaction) : String :=
  s!"No test for {i.handlerProp} on {i.event} of <{i.element}>: " ++
    "the element has no test id or literal text to find it by"

/-- The component shows something with the gate open and nothing with it closed. -/
def visibilityCase (d : Descriptor) (g : Gate) (renders : Bool) : Assertion :=
  let value := if renders then g.rendersWhen else !g.rendersWhen
  let shown := if renders then "content" else "nothing"
  { name := s!"renders {shown} when {g.prop} is {truthText value}"
    kind := .visibility
    render := ⟨"view", withProp d g.prop (.boolean value)⟩
    probe := ⟨.markup, "view"⟩
    expected := .text ""
    negate := renders }

/-- The two assertions about a gate. -/
def visibilityCases (d : Descriptor) : List Assertion :=
  match d.visibility with
  | some g => [visibilityCase d g true, visibilityCase d g false]
  | none => []

/-- The test specification of a component. -/
def ofDescriptor (d : Descriptor) : TestSpec where
  component := d.name
  exportKind := d.exportKind
  assertions := smoke d :: (d.defaulted.map (defaultCase d) ++
    ((d.interactions.filter (·.locatable)).map (interactionCase d) ++ visibilityCases d))
  warnings := d.defaulted.filterMap defaultWarning? ++
    (d.interactions.filter fun i => !i.locatable).map interactionWarning

end TestSpec
end Transplant
