import Transplant.Component.Error
import Transplant.Component.Expression
import Transplant.Component.Names
import Transplant.Data.Table

/-!
# Where a component is

A file holds one component: an exported function that takes at most its props, or its props and a
reference if it is forwarded, and that can return markup. `Site.locate` finds it, following names
and the two wrappers `memo` and `forwardRef`; it fails when there is none or more than one.

`Site.defaults?` finds the statement that gives the component its `defaultProps`.
-/

namespace Transplant

/-- The one component of a file. -/
structure Site where
  name : String
  callable : Node
  /-- The top-level statement that holds the definition. -/
  statement : Node
  exportKind : ExportKind
  wrapper : Option String
  /-- The name in the module; an anonymous default export has none. -/
  binding : Option String

namespace Site

/-- The functions that wrap a component without changing its props. -/
def wrappers : List String := ["memo", "forwardRef", "React.memo", "React.forwardRef"]

/-- A definition of the module: its function, if it is one, and the wrapper around that. -/
structure Definition where
  callable : Option Node
  statement : Node
  wrapper : Option String

/-- The definitions of a module by name; a later one replaces an earlier one. -/
abbrev Definitions := Table Definition

/-- What a value is as a component: its function and its wrapper. -/
abbrev Resolved := Option Node × Option String

/-- The resolution of a wrapped argument: a forwarded reference stays visible. -/
def Resolved.within (inner : Resolved) (callee : String) : Resolved :=
  match inner.2 with
  | some w => if Text.endsWith w "forwardRef" then (inner.1, some w) else (inner.1, some callee)
  | none => (inner.1, some callee)

mutual

/-- The function that a value stands for. -/
def resolve (defs : Definitions) : Node → Resolved
  | ⟨kind, role, start, stop, line, text, children⟩ =>
    if kind.isWrapper then resolveFirst defs children
    else if kind.isFunction then (some ⟨kind, role, start, stop, line, text, children⟩, none)
    else if kind == .identifier then
      match defs.get? text with
      | some d => (d.callable, d.wrapper)
      | none => (none, none)
    else if kind == .callExpression then
      match children.find? (·.role == some .callee) with
      | some callee =>
        if wrappers.contains callee.text then
          match resolveArguments? defs children with
          | some inner => inner.within callee.text
          | none => (none, none)
        else (none, none)
      | none => (none, none)
    else (none, none)

/-- The resolution of the first node that is no token. -/
def resolveFirst (defs : Definitions) : List Node → Resolved
  | [] => (none, none)
  | c :: rest => if c.kind == .token then resolveFirst defs rest else resolve defs c

/-- The resolution of the first argument, if there is one. -/
def resolveArguments? (defs : Definitions) : List Node → Option Resolved
  | [] => none
  | ⟨_, role, _, _, _, _, children⟩ :: rest =>
    if role == some .arguments then resolvePart? defs children else resolveArguments? defs rest

/-- The resolution of the first node that is neither a token nor a comment. -/
def resolvePart? (defs : Definitions) : List Node → Option Resolved
  | [] => none
  | c :: rest =>
    if c.kind == .token || c.kind == .comment then resolvePart? defs rest
    else some (resolve defs c)

end

mutual

/-- The name inside the wrappers, as in `memo(Button)`. -/
def wrappedName? : Node → Option String
  | ⟨kind, _, _, _, _, text, children⟩ =>
    if kind.isWrapper then firstWrappedName? children
    else if kind == .identifier then some text
    else if kind == .callExpression &&
        (children.find? (·.role == some .callee)).any (wrappers.contains ·.text) then
      argumentName? children
    else none

/-- The name inside the first node that is no token. -/
def firstWrappedName? : List Node → Option String
  | [] => none
  | c :: rest => if c.kind == .token then firstWrappedName? rest else wrappedName? c

/-- The name inside the first argument. -/
def argumentName? : List Node → Option String
  | [] => none
  | ⟨_, role, _, _, _, _, children⟩ :: rest =>
    if role == some .arguments then partName? children else argumentName? rest

/-- The name inside the first node that is neither a token nor a comment. -/
def partName? : List Node → Option String
  | [] => none
  | c :: rest =>
    if c.kind == .token || c.kind == .comment then partName? rest else wrappedName? c

end

/-- The definitions after one variable of a declaration, and the name it declares. -/
def declareVariable (holder : Node) (acc : Definitions × List String) (declarator : Node) :
    Definitions × List String :=
  if declarator.kind != .variableDeclarator then acc
  else match declarator.child? .name with
    | none => acc
    | some name =>
      if name.kind != .identifier then acc
      else
        let resolved : Resolved :=
          match declarator.child? .value with
          | some value => resolve acc.1 value
          | none => (none, none)
        (acc.1.put name.text ⟨resolved.1, holder, resolved.2⟩, acc.2 ++ [name.text])

/-- The definitions after a statement, and the names it declares. -/
def declare (defs : Definitions) (statement holder : Node) : Definitions × List String :=
  match statement.kind with
  | .functionDeclaration | .generatorFunctionDeclaration =>
    match statement.child? .name with
    | some name => (defs.put name.text ⟨some statement, holder, none⟩, [name.text])
    | none => (defs, [])
  | .classDeclaration =>
    match statement.child? .name with
    | some name => (defs.put name.text ⟨none, holder, none⟩, [name.text])
    | none => (defs, [])
  | .lexicalDeclaration | .variableDeclaration =>
    statement.parts.foldl (declareVariable holder) (defs, [])
  | _ => (defs, [])

/-- An export: the name it goes by in the module, its kind, and its own definition if the export
is not just a name. -/
structure Export where
  binding : Option String
  kind : ExportKind
  anonymous : Option Definition

/-- What the statements of a module define and export. -/
structure Surface where
  defs : Definitions
  exports : List Export

/-- The exports of a list of names in braces. -/
def listedExports (statement : Node) : List Export :=
  (statement.walk.filter (·.kind == .exportSpecifier)).filterMap fun spec =>
    (spec.child? .name).map fun name =>
      let kind := if (spec.child? .alias).any (·.text == "default") then .default else .named
      ⟨some name.text, kind, none⟩

/-- The surface after one more statement. -/
def Surface.add (s : Surface) (statement : Node) : Surface :=
  if statement.kind != .exportStatement then
    { s with defs := (declare s.defs statement statement).1 }
  else
    let kind := if statement.children.any (·.isToken "default") then .default else .named
    match statement.child? .declaration, statement.child? .value with
    | some declaration, _ =>
      let (defs, names) := declare s.defs declaration statement
      ⟨defs, s.exports ++ names.map fun name => ⟨some name, kind, none⟩⟩
    | none, some value =>
      let target := value.unwrap
      if target.kind == .identifier then
        { s with exports := s.exports ++ [⟨some target.text, kind, none⟩] }
      else
        let resolved := resolve s.defs value
        let definition := ⟨resolved.1, statement, resolved.2⟩
        { s with exports := s.exports ++ [⟨wrappedName? target, kind, some definition⟩] }
    | none, none =>
      if (statement.child? .source).isSome then s
      else { s with exports := s.exports ++ listedExports statement }

/-- The surface of a module. -/
def surface (root : Node) : Surface := root.parts.foldl Surface.add ⟨Table.empty, []⟩

/-- Whether a function is a component: it takes at most its props (and a reference if forwarded),
as a name or an object pattern, and can return markup. -/
def isComponent (fn : Node) (wrapper : Option String) : Bool :=
  let params := Function.params fn
  let limit := if wrapper.any (Text.endsWith · "forwardRef") then 2 else 1
  let takesProps :=
    match params.head? with
    | none => true
    | some param =>
      let kind := (Function.pattern param).1.kind
      kind == .identifier || kind == .objectPattern
  let rendersMarkup :=
    match fn.child? .body with
    | none => false
    | some body =>
      if body.kind != .statementBlock then Expression.returnsMarkup body
      else body.ownNodes.any fun n =>
        n.kind == .returnStatement && n.firstPart?.any Expression.returnsMarkup
  params.length ≤ limit && takesProps && rendersMarkup

/-- An exported component with all the ways in which it is exported. -/
structure Candidate where
  binding : Option String
  callable : Node
  statement : Node
  wrapper : Option String
  kinds : List ExportKind

/-- The candidates after one more export; the same function is one candidate. -/
def addCandidate (defs : Definitions) (found : List Candidate) (e : Export) : List Candidate :=
  match e.anonymous.orElse fun _ => defs.get? (e.binding.getD "") with
  | none => found
  | some d =>
    match d.callable with
    | none => found
    | some callable =>
      if !isComponent callable d.wrapper then found
      else if found.any (·.callable.start == callable.start) then
        found.map fun c =>
          if c.callable.start == callable.start then { c with kinds := c.kinds ++ [e.kind] } else c
      else found ++ [⟨e.binding, callable, d.statement, d.wrapper, [e.kind]⟩]

/-- The exported components of a module, in order of export. -/
def candidates (root : Node) : List Candidate :=
  let s := surface root
  s.exports.foldl (addCandidate s.defs) []

/-- The one component of a file. -/
def locate (root : Node) (path : String) : Except AnalysisError Site :=
  match candidates root with
  | [] => .error (.noComponent path)
  | [c] =>
    let given := c.binding.orElse fun _ => (c.callable.child? .name).map (·.text)
    .ok {
      name := given.getD (Names.ofPath path)
      callable := c.callable
      statement := c.statement
      exportKind := if c.kinds.contains .default then .default else .named
      wrapper := c.wrapper
      binding := c.binding }
  | several =>
    .error (.severalComponents path several.length
      (several.map fun c => c.binding.getD "<default>"))

/-! ## The object of default props -/

/-- One entry of the object: the prop, the whole entry and its value. -/
structure DefaultPair where
  prop : String
  pair : Node
  value : Node

/-- The statement `Name.defaultProps = …` of a component. -/
structure Defaults where
  statement : Node
  object : Node
  pairs : List DefaultPair

/-- The entries of an object that have a key and a value. -/
def pairsOf (object : Node) : List DefaultPair :=
  (object.parts.filter (·.kind == .pair)).filterMap fun pair =>
    match pair.child? .key, pair.child? .value with
    | some key, some value => some ⟨key.keyName, pair, value⟩
    | _, _ => none

/-- The defaults that a statement gives to one of the names. -/
def defaultsIn? (names : List String) (statement : Node) : Option Defaults := do
  if statement.kind != .expressionStatement then none
  let expression ← statement.firstPart?.map Node.unwrap
  if expression.kind != .assignmentExpression then none
  let left ← expression.child? .left
  let right ← (expression.child? .right).map Node.unwrap
  if left.kind != .memberExpression || right.kind != .object then none
  let object ← left.child? .object
  let property ← left.child? .property
  if !names.contains object.text || property.text != "defaultProps" then none
  some ⟨statement, right, pairsOf right⟩

/-- The first statement that gives the component its default props. -/
def defaults? (root : Node) (site : Site) : Option Defaults :=
  root.parts.findSome? (defaultsIn? (site.name :: site.binding.toList))

end Site
end Transplant
