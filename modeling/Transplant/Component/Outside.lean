import Transplant.Component.Props

/-!
# Writes outside the component

Assignments, updates, deletions and calls of changing methods whose target starts from a name that
no function around them declares. Each function is a scope; a scope declares its parameters and the
variables, functions, classes, caught errors and loop variables of its body.
-/

namespace Transplant
namespace Outside

/-- A scope is told apart by its place. -/
abbrev Scope := Nat × Nat

/-- The methods that change the object they are called on. -/
def changingMethods : List String :=
  ["push", "pop", "shift", "unshift", "splice", "sort", "reverse", "fill", "set", "add", "delete",
    "clear", "setItem", "removeItem"]

/-- The scopes around a visited node, innermost first. -/
def scopesAround (v : Node.Visit) : List Scope :=
  (v.above.filter (·.kind.isFunction)).map Node.span

/-- Whether a visited node is a default of a pattern: what stands on the right of it. -/
def isDefault (v : Node.Visit) : Bool :=
  v.parent?.any (fun p => p.kind == .assignmentPattern || p.kind == .objectAssignmentPattern) &&
    v.node.role == some .right

/-- The names in a pattern. A default that is a single name is none of them. -/
def namesIn (pattern : Node) : List String :=
  ((pattern.visits []).filter fun v =>
    (v.node.kind == .identifier || v.node.kind == .shorthandPropertyIdentifierPattern) &&
      !isDefault v).map (·.node.text)

/-- The pattern by which a node declares names in the scope around it. -/
def declaredPattern? (site : Site) (n : Node) : Option Node :=
  match n.kind with
  | .variableDeclarator => n.child? .name
  | .functionDeclaration | .classDeclaration | .generatorFunctionDeclaration =>
    if n.span == site.callable.span && n.kind == site.callable.kind then none else n.child? .name
  | .catchClause => n.child? .parameter
  | .forInStatement => n.child? .left
  | _ => none

/-- The names that a visited node declares, with their scopes. -/
def declaredBy (site : Site) (v : Node.Visit) : List (Scope × String) :=
  let own :=
    if v.node.kind.isFunction then
      (Function.params v.node).flatMap fun p => (namesIn p).map (v.node.span, ·)
    else []
  let outer :=
    match (scopesAround v).head?, declaredPattern? site v.node with
    | some scope, some pattern => (namesIn pattern).map (scope, ·)
    | _, _ => []
  own ++ outer

/-- All names declared in a component, with their scopes. -/
def declared (site : Site) : List (Scope × String) :=
  (site.callable.visits []).flatMap (declaredBy site)

/-- Whether a name is declared around a visited node. -/
def isLocal (decls : List (Scope × String)) (v : Node.Visit) (name : String) : Bool :=
  (scopesAround v).any fun scope => decls.contains (scope, name)

/-- The targets outside the component among what is assigned to. -/
def targets (decls : List (Scope × String)) (v : Node.Visit) (target : Node) : List String :=
  if target.kind == .objectPattern || target.kind == .arrayPattern then
    ((target.walk.filter (·.kind == .identifier)).map (·.text)).filter (!isLocal decls v ·)
  else
    match Expression.root? target with
    | none => []
    | some root => if isLocal decls v root.text then [] else [target.text]

/-- The writes of a visited node. -/
def writesOf (decls : List (Scope × String)) (v : Node.Visit) : List OutsideWrite :=
  let n := v.node
  let into (kind : WriteKind) (role : Role) : List OutsideWrite :=
    (((n.child? role).map (targets decls v)).getD []).map (⟨n.line, ·, kind⟩)
  match n.kind with
  | .assignmentExpression | .augmentedAssignmentExpression => into .assign .left
  | .updateExpression => into .update .argument
  | .unaryExpression => if n.operatorText? == some "delete" then into .delete .argument else []
  | .callExpression =>
    match n.child? .callee with
    | none => []
    | some callee =>
      if callee.kind == .memberExpression &&
          (callee.child? .property).any (changingMethods.contains ·.text) then
        match (callee.child? .object).bind Expression.root? with
        | some root => if isLocal decls v root.text then [] else [⟨n.line, callee.text, .call⟩]
        | none => []
      else []
  | _ => []

/-- The writes of a component outside itself, each once. -/
def ofComponent (site : Site) : List OutsideWrite :=
  let decls := declared site
  eachOnce ((site.callable.visits []).flatMap (writesOf decls))

end Outside
end Transplant
