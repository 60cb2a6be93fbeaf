import Transplant.Tree.Kind

/-!
# Source trees

A `Node` is a stretch of source with what it is, what it is for its parent, where it stands and
what it is made of. It carries its own text, so everything said about a node is read off the node
and no analysis needs the file it came from.

* `Node.child?`: the child in a given role
* `Node.namedChildren`: the children that are no tokens, comments included
* `Node.parts`: the same without the comments
* `Node.unwrap`: the expression inside parentheses and type wrappers
-/

namespace Transplant

/-- A stretch `[start, stop)` of the bytes of a source, beginning on line `line`. -/
structure Node where
  kind : Kind
  role : Option Role
  start : Nat
  stop : Nat
  line : Nat
  text : String
  children : List Node
deriving BEq, Repr, Inhabited

namespace Node

/-- The first child in the given role. -/
def child? (n : Node) (r : Role) : Option Node := n.children.find? (·.role == some r)

/-- Whether the node is more than a keyword, operator or mark. -/
def isNamed (n : Node) : Bool := n.kind != .token

/-- The children that are no tokens, comments included. -/
def namedChildren (n : Node) : List Node := n.children.filter (·.isNamed)

/-- The children that are neither tokens nor comments. -/
def parts (n : Node) : List Node := n.namedChildren.filter (·.kind != .comment)

/-- The first child that is neither a token nor a comment. -/
def firstPart? (n : Node) : Option Node := n.parts.head?

/-- Whether the node is the token written `s`. -/
def isToken (n : Node) (s : String) : Bool := n.kind == .token && n.text == s

/-- Where the node stands, which tells it apart from every other function of its tree. -/
def span (n : Node) : Nat × Nat := (n.start, n.stop)

/-- The same node in another role. -/
def inRole (n : Node) (r : Role) : Node := { n with role := some r }

mutual

/-- Strips parentheses and type wrappers. The content is the first child that is no token, so a
comment right after an opening parenthesis is taken for it. -/
def unwrap : Node → Node
  | ⟨kind, role, start, stop, line, text, children⟩ =>
    if kind.isWrapper then (unwrapFirst? children).getD ⟨kind, role, start, stop, line, text, children⟩
    else ⟨kind, role, start, stop, line, text, children⟩

/-- The first of the nodes that is no token, unwrapped. -/
def unwrapFirst? : List Node → Option Node
  | [] => none
  | c :: rest => if c.kind == .token then unwrapFirst? rest else some (unwrap c)

end

/-- Whether the text of a template is fixed: no `${...}` in it. -/
def isPlainTemplate (n : Node) : Bool :=
  n.kind == .templateString && !n.namedChildren.any (·.kind == .templateSubstitution)

/-- The text between the quotes of a string or of a template without substitutions. -/
def stringValue? (n : Node) : Option String :=
  if n.kind == .string || n.isPlainTemplate then
    some (String.ofList ((n.text.toList.drop 1).dropLast))
  else none

/-- The name that a property key stands for: the content of a quoted key unless that is empty,
the key as written otherwise. -/
def keyName (n : Node) : String :=
  match n.stringValue? with
  | some s => if s.isEmpty then n.text else s
  | none => n.text

/-- The text of an operator token in role `operator`. -/
def operatorText? (n : Node) : Option String := (n.child? .operator).map (·.text)

end Node
end Transplant
