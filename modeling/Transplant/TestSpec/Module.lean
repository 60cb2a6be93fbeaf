import Transplant.Text.Identifier
import Transplant.TestSpec.Literal
import Transplant.TestSpec.Scaffold

/-!
# Test modules

The text of a test module for a specification: Jest cases that render with the testing library for
React.

* `TestModule.renderCall`, `TestModule.equality`, `TestModule.simulation`: statements
* `TestModule.testCase`, `TestModule.file`: cases and the module around them
* `TestModule.ofSpec`: the module of a specification
-/

namespace Transplant
namespace TestModule

/-- An element that a test has nothing to find by. -/
structure Unlocatable where
  element : String
deriving DecidableEq, Repr

/-- The wording of an element that cannot be found. -/
def Unlocatable.message (e : Unlocatable) : String :=
  s!"Cannot locate <{e.element}> in a rendered test"

/-- An expression of a kind, for the prop of a name. -/
def placeholder (name : String) : PropKind → String
  | .string => Literal.ofText ("test-" ++ name)
  | .number => "1"
  | .boolean => "true"
  | .function => "() => \x7b\x7d"
  | .node => "'content'"
  | .array => "[]"
  | .object => "\x7b\x7d"
  | .unknown | .other _ => "'placeholder'"

/-- The expression of a value, for the prop of a name. -/
def propText (name : String) : PropValue → String
  | .placeholder kind => placeholder name kind
  | value => value.value

/-- The statement that makes the mock of a handler. -/
def mock? (prop : String × PropValue) : Option String :=
  match prop.2 with
  | .handler mock => some s!"const {mock} = jest.fn();"
  | _ => none

/-- A prop written as an attribute. -/
def attrText (prop : String × PropValue) : String :=
  prop.1 ++ "=\x7b" ++ propText prop.1 prop.2 ++ "\x7d"

/-- A prop written as an entry of an object. -/
def entryText (prop : String × PropValue) : String :=
  Literal.ofText prop.1 ++ ": " ++ propText prop.1 prop.2

/-- The attributes of an element with given props. Names that cannot be attributes go into one
object at the end. -/
def attrs (props : List (String × PropValue)) : List String :=
  let named := props.filter fun p => Text.isAttributeName p.1
  let others := props.filter fun p => !Text.isAttributeName p.1
  let spread := "\x7b...\x7b " ++ Text.join ", " (others.map entryText) ++ " \x7d\x7d"
  named.map attrText ++ (if others.isEmpty then [] else [spread])

/-- The statements of a rendering. -/
def renderCall (component : String) (r : Rendering) : List String :=
  let element := Text.join " " (component :: attrs r.props)
  r.props.filterMap mock? ++
    ["const \x7b container: " ++ r.binding ++ " \x7d = render(<" ++ element ++ " />);"]

/-- The expression of an observation. -/
def probeText (p : Probe) : String :=
  match p.kind with
  | .mounted => p.target ++ ".isConnected"
  | .markup => p.target ++ ".innerHTML"
  | .callCount => p.target ++ ".mock.calls.length"

/-- The expression of what is expected. -/
def expectedText : Expected → String
  | .probe p => probeText p
  | .text s => Literal.ofText s
  | .int n => toString n
  | .bool b => truthText b
  | .none => "null"

/-- The statement that compares an observation with what is expected, or with what is not. -/
def equality (actual : Probe) (expected : Expected) (negate : Bool) : List String :=
  let matcher := if negate then ".not.toBe" else ".toBe"
  [s!"expect({probeText actual}){matcher}({expectedText expected});"]

/-- The test id of an element with the attribute that it stands in, if both are there. -/
def marked? (testAttribute : Option String) (l : Locator) : Option (String × String) :=
  match testAttribute.filter (· ≠ ""), l.testId with
  | some attr, some id => some (attr, id)
  | _, _ => none

/-- The query that finds an element by its test id, or by its tag. -/
def selector (testAttribute : Option String) (l : Locator) : String :=
  match marked? testAttribute l with
  | some (attr, id) => Literal.ofText ("[" ++ attr ++ "=\"" ++ id ++ "\"]")
  | none => Literal.ofText l.element

/-- The expression that finds an element. A component has no tag of its own: it is found by its test
id, as the root, or by its text. -/
def located (testAttribute : Option String) (binding : String) (l : Locator) :
    Except Unlocatable String :=
  if !l.composite || (marked? testAttribute l).isSome then
    .ok s!"{binding}.querySelector({selector testAttribute l})"
  else if l.root then .ok s!"{binding}.firstElementChild"
  else match l.text with
    | some text => .ok s!"within({binding}).getByText({Literal.ofText text})"
    | none => .error ⟨l.element⟩

/-- The statement of an event. -/
def simulation (testAttribute : Option String) (s : Simulation) :
    Except Unlocatable (List String) :=
  (located testAttribute s.binding s.locator).map fun target =>
    [s!"fireEvent.{s.event}({target});"]

/-- A test case with the given statements. -/
def testCase (name : String) (statements : List String) : String :=
  let body := Text.join "\n" (statements.map ("    " ++ ·))
  "  it(" ++ Literal.ofText name ++ ", () => \x7b\n" ++ body ++ "\n  \x7d);"

/-- The module with the given cases. -/
def file (component importPath : String) (exportKind : ExportKind) (cases : List String) : String :=
  let binding :=
    match exportKind with
    | .default => component
    | .named => "\x7b " ++ component ++ " \x7d"
  "import React from 'react';\n" ++
    "import \x7b render, fireEvent, within \x7d from '@testing-library/react';\n" ++
    s!"import {binding} from {Literal.ofText importPath};" ++
    "\n\ndescribe(" ++ Literal.ofText component ++ ", () => \x7b\n" ++
    Text.join "\n\n" cases ++ "\n\x7d);\n"

/-- The statements of an assertion. -/
def statements (testAttribute : Option String) (component : String) (a : Assertion) :
    Except Unlocatable (List String) := do
  let events ←
    match a.event with
    | some s => simulation testAttribute s
    | none => pure []
  return renderCall component a.render ++ (a.baseline.map (renderCall component)).getD [] ++
    events ++ equality a.probe a.expected a.negate

/-- The case of an assertion. -/
def caseOf (testAttribute : Option String) (component : String) (a : Assertion) :
    Except Unlocatable String :=
  (statements testAttribute component a).map (testCase a.name)

/-- The module of a specification, for a component of the given name that is imported from the
given place. -/
def ofSpec (testAttribute : Option String) (spec : TestSpec) (component importPath : String) :
    Except Unlocatable String :=
  (spec.assertions.mapM (caseOf testAttribute component)).map
    (file component importPath spec.exportKind)

end TestModule
end Transplant
