import Transplant.Component.Descriptor

/-!
# Test specifications

What is to be tested of a component, without the words of any test library: renderings with given
props, events on elements, and what should be observed.
-/

namespace Transplant

/-- The value that a prop gets in a rendering. -/
inductive PropValue where
  /-- Any value of the kind. -/
  | placeholder (kind : PropKind)
  /-- An expression as written. -/
  | source (text : String)
  /-- A mock function of the given name. -/
  | handler (mock : String)
  | boolean (value : Bool)
deriving DecidableEq, Repr

/-- The word for a kind of value. -/
def PropValue.kind : PropValue → String
  | .placeholder _ => "placeholder"
  | .source _ => "source"
  | .handler _ => "handler"
  | .boolean _ => "boolean"

/-- The words for the truth values. -/
def truthText (b : Bool) : String := if b then "true" else "false"

/-- What a value says, in words. -/
def PropValue.value : PropValue → String
  | .placeholder kind => kind.name
  | .source text => text
  | .handler mock => mock
  | .boolean value => truthText value

/-- A rendering of the component, whose result goes by a name. -/
structure Rendering where
  binding : String
  props : List (String × PropValue)
deriving DecidableEq, Repr

/-- What can be observed. -/
inductive ProbeKind where
  /-- Whether a rendering is mounted. -/
  | mounted
  /-- The markup of a rendering. -/
  | markup
  /-- How often a mock has been called. -/
  | callCount
deriving DecidableEq, Repr

/-- The word for what is observed. -/
def ProbeKind.name : ProbeKind → String
  | .mounted => "mounted"
  | .markup => "markup"
  | .callCount => "call_count"

/-- An observation of a rendering or of a mock. -/
structure Probe where
  kind : ProbeKind
  target : String
deriving DecidableEq, Repr

/-- What an observation is compared with. -/
inductive Expected where
  | probe (p : Probe)
  | text (s : String)
  | int (n : Int)
  | bool (b : Bool)
  | none
deriving DecidableEq, Repr

/-- What is known to find an element by. -/
structure Locator where
  element : String
  testId : Option String := none
  text : Option String := none
  root : Bool := false
deriving DecidableEq, Repr

/-- Whether the element is itself a component: capitalized, or the member of something. -/
def Locator.composite (l : Locator) : Bool :=
  Text.isCapitalized l.element || l.element.toList.contains '.'

/-- An event on an element of a rendering. -/
structure Simulation where
  binding : String
  locator : Locator
  event : String
deriving DecidableEq, Repr

/-- What an assertion is about. -/
inductive AssertionKind where
  | smoke
  | default
  | interaction
  | visibility
deriving DecidableEq, Repr

/-- The word for what an assertion is about. -/
def AssertionKind.name : AssertionKind → String
  | .smoke => "smoke"
  | .default => "default"
  | .interaction => "interaction"
  | .visibility => "visibility"

/-- One assertion: render, render again if there is a baseline, let the event happen, and compare
what is observed with what is expected. -/
structure Assertion where
  name : String
  kind : AssertionKind
  render : Rendering
  baseline : Option Rendering := none
  event : Option Simulation := none
  probe : Probe
  expected : Expected
  negate : Bool := false
deriving DecidableEq, Repr

/-- The assertions about a component, and what could not be covered. -/
structure TestSpec where
  component : String
  exportKind : ExportKind
  assertions : List Assertion
  warnings : List String
deriving DecidableEq, Repr

end Transplant
