import Transplant.Component.Site

/-!
# The props of a component

Props come from the pattern of the first parameter, or, when the parameter is a name, from the
places where that name is taken apart or a member of it is read. The type of the parameter tells the
kind of a prop and whether it may be missing. Then the entries of `defaultProps` are merged in: they
replace the default of a prop and add props that were not seen before.
-/

namespace Transplant
namespace Props

/-! ## What types say -/

/-- What a type says about a prop: its kind, and whether it may be missing. -/
structure Typing where
  kind : PropKind
  optional : Bool

/-- The type behind a type clause. -/
def clauseType? (clause : Node) : Option Node :=
  if clause.kind == .typeClause then clause.firstPart? else some clause

/-- The names of the types that hold markup. -/
def markupTypes : List String := ["ReactNode", "ReactElement", "JSX.Element", "Element"]

/-- The last component of a type name, its arguments aside. -/
def baseName (type : String) : String :=
  let name := type.toList.takeWhile (· ≠ '<')
  String.ofList (name.reverse.takeWhile (· ≠ '.')).reverse

/-- The kind on which the parts of a union agree, those of which nothing is known aside. -/
def agreed (kinds : List PropKind) : PropKind :=
  match eachOnce (kinds.filter (· ≠ .unknown)) with
  | [kind] => kind
  | _ => .unknown

mutual

/-- The kind of value that a type describes. -/
def kindOfType : Node → PropKind
  | ⟨kind, _, _, _, _, text, children⟩ =>
    if kind == .predefinedType then
      if text = "string" then .string
      else if text = "number" then .number
      else if text = "boolean" then .boolean
      else .unknown
    else if kind == .functionType then .function
    else if kind == .arrayType || Text.startsWith text "Array<" ||
        Text.startsWith text "ReadonlyArray<" then .array
    else if kind == .objectType then .object
    else if kind == .literalType then
      match children.find? (fun c => c.kind != .token && c.kind != .comment) with
      | some literal => Expression.kindOf literal
      | none => .unknown
    else if kind == .unionType then agreed (kindsOfTypes children)
    else if markupTypes.contains (baseName text) then .node
    else .unknown

/-- The kinds that the types among the nodes describe. -/
def kindsOfTypes : List Node → List PropKind
  | [] => []
  | c :: rest =>
    if c.kind == .token || c.kind == .comment then kindsOfTypes rest
    else kindOfType c :: kindsOfTypes rest

end

/-- The members of the type with the given name, declared somewhere in the file. -/
def declaredMembers? (root : Node) (name : String) : Option Node :=
  (root.walk.findSome? fun n =>
    if n.kind == .interfaceDeclaration && (n.child? .name).any (·.text == name) then
      some (n.child? .body)
    else if n.kind == .typeAliasDeclaration && (n.child? .name).any (·.text == name) &&
        (n.child? .value).any (·.kind == .objectType) then
      some (n.child? .value)
    else none).join

mutual

/-- The members of a type: its own, those of the declaration that it names, or those of its first
argument. -/
def typeMembers? (root : Node) : Node → Option Node
  | ⟨kind, role, start, stop, line, text, children⟩ =>
    if kind == .objectType then some ⟨kind, role, start, stop, line, text, children⟩
    else if kind == .genericType then argumentMembers? root children
    else if kind == .typeIdentifier then declaredMembers? root text
    else none

/-- The members of the first type argument among the children of a generic type. -/
def argumentMembers? (root : Node) : List Node → Option Node
  | [] => none
  | ⟨kind, _, _, _, _, _, children⟩ :: rest =>
    if kind == .typeArguments then firstMembers? root children else argumentMembers? root rest

/-- The members of the first node that is neither a token nor a comment. -/
def firstMembers? (root : Node) : List Node → Option Node
  | [] => none
  | c :: rest =>
    if c.kind == .token || c.kind == .comment then firstMembers? root rest
    else typeMembers? root c

end

/-- What the members of a type say about the props of those names. -/
def typings (root : Node) (clause : Option Node) : List (String × Typing) :=
  match (clause.bind clauseType?).bind (typeMembers? root) with
  | none => []
  | some body =>
    (body.parts.filter (·.kind == .propertySignature)).filterMap fun member =>
      (member.child? .name).map fun name =>
        let kind := (((member.child? .typing).bind clauseType?).map kindOfType).getD .unknown
        (name.text, ⟨kind, member.children.any (·.isToken "?")⟩)

/-- What is known from types about a prop; the last member of that name counts. -/
def typingOf (types : List (String × Typing)) (name : String) : Typing :=
  (types.reverse.lookup name).getD ⟨.unknown, false⟩

/-- The type of the variable that holds the component. -/
def variableTyping? (statement : Node) : Option Node :=
  statement.walk.findSome? fun n =>
    if n.kind == .variableDeclarator then n.child? .typing else none

/-! ## Props of a pattern -/

/-- A prop with the default written in a pattern. -/
def make (types : List (String × Typing)) (name : String) (dflt : Option Node) : PropSpec :=
  let typing := typingOf types name
  let fromDefault := (dflt.map Expression.kindOf).getD .unknown
  { name
    hasDefault := dflt.isSome
    defaultText := dflt.map (·.text)
    required := dflt.isNone && !typing.optional
    kind := (typing.kind.orElse fromDefault).orElse (Names.kindOf name)
    defaultSource := if dflt.isSome then some .parameter else none
    selfContained := dflt.all fun e => (Expression.freeNames e).isEmpty }

/-- The prop that a member of an object pattern takes out, and the member's default. -/
def ofMember? (member : Node) : Option (String × Option Node) :=
  match member.kind with
  | .shorthandPropertyIdentifierPattern => some (member.text, none)
  | .objectAssignmentPattern =>
    (member.child? .left).map fun left => (left.text, member.child? .right)
  | .pairPattern =>
    (member.child? .key).map fun key =>
      let dflt := (member.child? .value).bind fun value =>
        if value.kind == .assignmentPattern then value.child? .right else none
      (key.keyName, dflt)
  | _ => none

/-- The props of an object pattern with their places. -/
def ofPattern (types : List (String × Typing)) (pattern : Node) : List (Nat × PropSpec) :=
  pattern.parts.filterMap fun member =>
    (ofMember? member).map fun (name, dflt) => (member.start, make types name dflt)

/-- The names that collect the remaining props of a pattern. -/
def restNames (pattern : Node) : List String :=
  (pattern.parts.filter (·.kind == .restPattern)).flatMap fun member =>
    (member.parts.filter (·.kind == .identifier)).map (·.text)

/-! ## Props of a named parameter -/

/-- What one node says about the props held by the name `param`: props with their places, and
names that hold props which cannot be listed. -/
def readAt (types : List (String × Typing)) (param : String) (n : Node) :
    List (Nat × PropSpec) × List String :=
  match n.kind with
  | .variableDeclarator =>
    match n.child? .name, (n.child? .value).map Node.unwrap with
    | some name, some value =>
      if name.kind == .objectPattern && value.text == param then
        (ofPattern types name, restNames name)
      else ([], [])
    | _, _ => ([], [])
  | .memberExpression =>
    match n.child? .object, n.child? .property with
    | some object, some property =>
      if object.kind == .identifier && object.text == param then
        ([(n.start, make types property.text none)], [])
      else ([], [])
    | _, _ => ([], [])
  | .spreadElement | .subscriptExpression =>
    if n.firstPart?.any fun t => t.kind == .identifier && t.text == param then ([], [param])
    else ([], [])
  | _ => ([], [])

/-- The props in order of place, each name once. -/
def inOrder (found : List (Nat × PropSpec)) : List PropSpec :=
  (found.mergeSort fun a b => a.1 ≤ b.1).foldl
    (fun seen p => if seen.any (·.name == p.2.name) then seen else seen ++ [p.2]) []

/-! ## All props -/

/-- The props of a component. -/
structure Extracted where
  props : List PropSpec := []
  /-- The names that hold props which cannot be listed. -/
  unknown : List String := []
  /-- The name of the parameter, if it is not taken apart. -/
  param : Option String := none

/-- Replaces the first prop of the same name. -/
def replaceFirst (merged : PropSpec) : List PropSpec → List PropSpec
  | [] => []
  | p :: rest => if p.name == merged.name then merged :: rest else p :: replaceFirst merged rest

/-- Merges one entry of `defaultProps`. -/
def mergeDefault (props : List PropSpec) (pair : Site.DefaultPair) : List PropSpec :=
  -- the last prop of a name is the one that is replaced
  let known := (props.reverse.find? (·.name == pair.prop)).map (·.kind)
  let kind := ((known.getD .unknown).orElse (Expression.kindOf pair.value)).orElse
    (Names.kindOf pair.prop)
  let merged : PropSpec := {
    name := pair.prop
    hasDefault := true
    defaultText := some pair.value.text
    required := false
    kind
    defaultSource := some .defaultsObject
    selfContained := (Expression.freeNames pair.value).isEmpty }
  if props.any (·.name == pair.prop) then (replaceFirst merged props.reverse).reverse
  else props ++ [merged]

/-- The props of the parameter, before `defaultProps` is looked at. -/
def ofParameter (root : Node) (site : Site) (param : Node) : Extracted :=
  let (pattern, own) := Function.pattern param
  let types := typings root (own.orElse fun _ => variableTyping? site.statement)
  if pattern.kind == .objectPattern then
    { props := (ofPattern types pattern).map (·.2), unknown := eachOnce (restNames pattern) }
  else if pattern.kind == .identifier then
    let reads := site.callable.walk.map (readAt types pattern.text)
    { props := inOrder (reads.flatMap (·.1))
      unknown := eachOnce (reads.flatMap (·.2))
      param := some pattern.text }
  else {}

/-- The props of a component; one without parameters has none, whatever its `defaultProps` say. -/
def extract (root : Node) (site : Site) : Extracted :=
  match Function.params site.callable with
  | [] => {}
  | param :: _ =>
    let found := ofParameter root site param
    match Site.defaults? root site with
    | none => found
    | some defaults => { found with props := defaults.pairs.foldl mergeDefault found.props }

/-- The prop that an expression reads directly: by its own name, or as a member of the
parameter. -/
def Extracted.reference? (x : Extracted) (e : Node) : Option String :=
  let n := e.unwrap
  if n.kind == .identifier && x.props.any (·.name == n.text) then some n.text
  else if n.kind == .memberExpression then
    match x.param, n.child? .object, n.child? .property with
    | some param, some object, some property =>
      if object.text == param then some property.text else none
    | _, _, _ => none
  else none

end Props
end Transplant
