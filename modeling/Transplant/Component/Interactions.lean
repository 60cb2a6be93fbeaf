import Transplant.Component.Effects
import Transplant.Text.Blank

/-!
# Interactions

The handler props that are called when something happens on an element: given to it directly, or
called by a function that is given to it, written in place or under a name of the component.
-/

namespace Transplant
namespace Interactions

/-- The attributes that tests find elements by. -/
def testAttributes : List String :=
  ["data-testid", "data-test-id", "data-test", "data-cy", "data-qa", "testID"]

/-- The function that a variable holds, through one callback hook. -/
def heldFunction? (value : Node) : Option Node :=
  let v := value.unwrap
  let inner :=
    if v.kind == .callExpression &&
        (v.child? .callee).any (Effects.bareCallee · == "useCallback") &&
        (v.child? .arguments).isSome then
      (Effects.argumentsOf v).head?.map Node.unwrap
    else some v
  inner.filter (·.kind.isFunction)

/-- The named function that a node declares. -/
def namedFunction? (n : Node) : Option (String × Node) :=
  match n.kind with
  | .functionDeclaration => (n.child? .name).map fun name => (name.text, n)
  | .variableDeclarator =>
    match n.child? .name, n.child? .value with
    | some name, some value =>
      if name.kind == .identifier then (heldFunction? value).map fun fn => (name.text, fn) else none
    | _, _ => none
  | _ => none

/-- The named functions of a component; of two with one name the last counts. -/
def localFunctions (site : Site) : List (String × Node) :=
  ((Node.walkAll site.callable.children).filterMap namedFunction?).reverse

/-- The first prop that a function calls. -/
def calledProp? (x : Props.Extracted) (fn : Node) : Option String :=
  (fn.walk.filter (·.kind == .callExpression)).findSome? fun call =>
    (call.child? .callee).bind x.reference?

/-- The prop that the value of a handler attribute leads to. -/
def handlerProp? (x : Props.Extracted) (functions : List (String × Node)) (e : Node) :
    Option String :=
  let n := e.unwrap
  match x.reference? n with
  | some prop => some prop
  | none =>
    if n.kind.isFunction then calledProp? x n
    else if n.kind == .identifier then (functions.lookup n.text).bind (calledProp? x)
    else none

/-- The name of an attribute. -/
def attributeName? (a : Node) : Option String := a.firstPart?.map (·.text)

/-- The value of an attribute. -/
def attributeValue? (a : Node) : Option Node := a.parts[1]?

/-- The fixed test identifier of an element: that of its last test attribute with a value. -/
def testId? (attributes : List Node) : Option String :=
  attributes.foldl
    (fun found a =>
      match attributeName? a, attributeValue? a with
      | some name, some value => if testAttributes.contains name then value.stringValue? else found
      | _, _ => found)
    none

/-- The text of an element that holds nothing else, its blanks reduced to single spaces. -/
def elementText? (v : Node.Visit) : Option String :=
  if v.node.kind != .jsxOpeningElement then none
  else
    match v.parent? with
    | none => none
    | some element =>
      let content := element.parts.filter fun c =>
        c.kind != .jsxOpeningElement && c.kind != .jsxClosingElement
      if content.all (·.kind == .jsxText) then
        let text := Text.join " " (Text.words (Text.join " " (content.map (·.text))))
        if text.isEmpty then none else some text
      else none

/-- The kinds that pass a value on. -/
def passesOn : Kind → Bool
  | .parenthesizedExpression | .ternaryExpression | .binaryExpression => true
  | _ => false

/-- Whether the element of a visited tag is what the component itself returns. -/
def isRoot (site : Site) (v : Node.Visit) : Bool :=
  let around := if v.node.kind == .jsxOpeningElement then v.above.drop 1 else v.above
  let outer := around.dropWhile (passesOn ·.kind)
  match outer with
  | [] => false
  | parent :: _ =>
    let owner :=
      if parent.kind == .returnStatement then outer.find? (·.kind.isFunction)
      else if parent.kind.isFunction then some parent
      else none
    owner.any (·.span == site.callable.span)

/-- The event that a handler attribute is for. -/
def eventOf (attr : String) : String :=
  match attr.toList.drop 2 with
  | [] => ""
  | c :: rest => String.ofList (c.toLower :: rest)

/-- The interactions of one visited tag. -/
def ofTag (x : Props.Extracted) (site : Site) (functions : List (String × Node))
    (v : Node.Visit) : List Interaction :=
  let attributes := v.node.parts.filter (·.kind == .jsxAttribute)
  let element := ((v.node.child? .name).map (·.text)).getD "Fragment"
  attributes.filterMap fun a =>
    match attributeName? a, attributeValue? a with
    | some name, some value =>
      if Names.isHandler name && value.kind == .jsxExpression then
        (value.firstPart?.bind (handlerProp? x functions)).map fun prop =>
          { event := eventOf name
            handlerProp := prop
            element
            testId := testId? attributes
            text := elementText? v
            root := isRoot site v }
      else none
    | _, _ => none

/-- Whether two interactions are the same event, prop and kind of element. -/
def sameKind (a b : Interaction) : Bool :=
  a.element == b.element && a.event == b.event && a.handlerProp == b.handlerProp

/-- The interactions of a component; of several of one kind the first counts. -/
def ofComponent (x : Props.Extracted) (site : Site) : List Interaction :=
  let functions := localFunctions site
  let found := ((site.callable.visits []).filter (·.node.kind.opensElement)).flatMap
    (ofTag x site functions)
  found.foldl (fun seen i => if seen.any (sameKind i) then seen else seen ++ [i]) []

end Interactions
end Transplant
