import Transplant.Component.Descriptor
import Transplant.Tree.Walk

/-!
# What an expression is

* `Expression.kindOf`: the kind of value that an expression gives
* `Expression.isStatic`: literals that mean the same wherever they are written
* `Expression.freeNames`: the names that an expression reads without binding them
* `Expression.root?`: the name that a chain of members starts from
* `Expression.returnsMarkup`: whether an expression can give markup
* `Function.params`, `Function.pattern`: the parameters of a function
-/

namespace Transplant
namespace Function

/-- The parameters of a function. -/
def params (fn : Node) : List Node :=
  match fn.child? .parameter with
  | some single => [single]
  | none => ((fn.child? .parameters).map Node.parts).getD []

/-- The pattern of a parameter without its default, and its type clause. -/
def pattern (param : Node) : Node × Option Node :=
  let typedParam := param.kind == .requiredParameter || param.kind == .optionalParameter
  let inner := if typedParam then (param.child? .pattern).getD param else param
  let typing := if typedParam then param.child? .typing else none
  let bare := if inner.kind == .assignmentPattern then (inner.child? .left).getD inner else inner
  (bare, typing)

end Function

namespace Expression

/-- The names that every script can read. -/
def globals : List String :=
  ["undefined", "NaN", "Infinity", "Math", "JSON", "Date", "Number", "String", "Boolean", "Array",
    "Object", "Symbol"]

/-- The kind of value of an expression, type wrappers aside. -/
def kindOf (e : Node) : PropKind :=
  let n := e.unwrap
  match n.kind with
  | .string | .templateString => .string
  | .number => .number
  | .trueLiteral | .falseLiteral => .boolean
  | .array => .array
  | .object => .object
  | .unaryExpression =>
    if (n.child? .argument).any (·.kind == .number) then .number
    else if n.operatorText? == some "!" then .boolean
    else .unknown
  | kind => if kind.isFunction then .function else if kind.isMarkup then .node else .unknown

/-- Whether an expression is a literal, possibly with a sign. -/
def isStatic (e : Node) : Bool :=
  let n := e.unwrap
  match n.kind with
  | .string | .number | .trueLiteral | .falseLiteral | .nullLiteral | .undefinedLiteral => true
  | .templateString => n.isPlainTemplate
  | .unaryExpression =>
    (n.operatorText? == some "-" || n.operatorText? == some "+") &&
      (n.child? .argument).any (·.kind == .number)
  | _ => false

/-- The identifiers in the parameters of the functions in an expression. -/
def boundNames (e : Node) : List String :=
  (e.walk.filter (·.kind.isFunction)).flatMap fun fn =>
    (Function.params fn).flatMap fun param =>
      (param.walk.filter (·.kind == .identifier)).map (·.text)

/-- The name that a visited node reads, if it is one. The name of a plain element is none. -/
def readName? (v : Node.Visit) : Option String :=
  if v.node.kind == .thisExpression then some "this"
  else if v.node.kind == .identifier || v.node.kind == .shorthandPropertyIdentifier then
    if v.parent?.any (·.kind.isTag) && !Text.isCapitalized v.node.text then none
    else some v.node.text
  else none

/-- The names that an expression reads and neither binds as a parameter nor finds everywhere;
`this` is never bound. -/
def freeNames (e : Node) : List String :=
  let bound := boundNames e
  let reads := (e.visits []).filterMap fun v =>
    (readName? v).filter fun name => v.node.kind == .thisExpression || !bound.contains name
  eachOnce (reads.filter fun name => !globals.contains name)

/-- The kinds that a chain of members is made of. -/
def isLink : Kind → Bool
  | .memberExpression | .subscriptExpression | .parenthesizedExpression
  | .nonNullExpression => true
  | _ => false

mutual

/-- The identifier that a chain of members, elements and parentheses starts from. -/
def root? : Node → Option Node
  | ⟨kind, role, start, stop, line, text, children⟩ =>
    if isLink kind then
      match rootOfObject? children with
      | some found => found
      | none => rootOfFirst? children
    else if kind == .identifier then some ⟨kind, role, start, stop, line, text, children⟩
    else none

/-- The root of the first child in role `object`, if there is such a child. -/
def rootOfObject? : List Node → Option (Option Node)
  | [] => none
  | c :: rest => if c.role == some .object then some (root? c) else rootOfObject? rest

/-- The root of the first child that is neither a token nor a comment. -/
def rootOfFirst? : List Node → Option Node
  | [] => none
  | c :: rest =>
    if c.kind == .token || c.kind == .comment then rootOfFirst? rest else root? c

end

/-- The operators that give one of their operands. -/
def selects (operator : Option String) : Bool :=
  operator == some "&&" || operator == some "||" || operator == some "??"

mutual

/-- Whether an expression can give markup: an element, or an element as one of the results of a
condition or of a logical operator. -/
def returnsMarkup : Node → Bool
  | ⟨kind, _, _, _, _, _, children⟩ =>
    if kind.isWrapper then firstReturnsMarkup children
    else if kind.isMarkup then true
    else if kind == .ternaryExpression then branchReturnsMarkup .consequence .alternative children
    else if kind == .binaryExpression then
      selects ((children.find? (·.role == some .operator)).map (·.text)) &&
        branchReturnsMarkup .right .left children
    else false

/-- Whether the first node that is no token can give markup. -/
def firstReturnsMarkup : List Node → Bool
  | [] => false
  | c :: rest => if c.kind == .token then firstReturnsMarkup rest else returnsMarkup c

/-- Whether a node in one of two roles can give markup. -/
def branchReturnsMarkup (one other : Role) : List Node → Bool
  | [] => false
  | c :: rest =>
    ((c.role == some one || c.role == some other) && returnsMarkup c) ||
      branchReturnsMarkup one other rest

end

/-- Whether an expression is `null` or `undefined`. -/
def isNothing (e : Node) : Bool :=
  let n := e.unwrap
  n.kind == .nullLiteral || n.kind == .undefinedLiteral

end Expression
end Transplant
