import Transplant.Component.Props

/-!
# Visibility

A boolean prop that makes the component return nothing: tested by the first statement that returns
in its case, or by the condition of the returned expression.
-/

namespace Transplant
namespace Visibility

/-- The prop that a condition tests, and the truth value for which it holds. -/
def subject? (x : Props.Extracted) (condition : Node) : Option (String × Bool) :=
  let n := condition.unwrap
  if n.kind == .unaryExpression then
    if n.operatorText? == some "!" then
      ((n.child? .argument).bind x.reference?).map (·, false)
    else none
  else (x.reference? n).map (·, true)

/-- The gate of a returned expression. -/
def ofExpression? (x : Props.Extracted) (e : Node) : Option Gate :=
  let n := e.unwrap
  match n.kind with
  | .ternaryExpression =>
    match (n.child? .condition).bind (subject? x), n.child? .consequence, n.child? .alternative with
    | some (prop, truth), consequence, alternative =>
      if alternative.any Expression.isNothing && consequence.any Expression.returnsMarkup then
        some ⟨prop, truth⟩
      else if consequence.any Expression.isNothing && alternative.any Expression.returnsMarkup then
        some ⟨prop, !truth⟩
      else none
    | none, _, _ => none
  | .binaryExpression =>
    if n.operatorText? == some "&&" && (n.child? .right).any Expression.returnsMarkup then
      ((n.child? .left).bind (subject? x)).map fun (prop, truth) => ⟨prop, truth⟩
    else none
  | _ => none

mutual

/-- Whether a statement returns nothing at once. -/
def returnsNothing : Node → Bool
  | ⟨kind, _, _, _, _, _, children⟩ =>
    if kind == .statementBlock then firstReturnsNothing children
    else if kind == .returnStatement then
      match children.find? (fun c => c.kind != .token && c.kind != .comment) with
      | none => true
      | some value => Expression.isNothing value
    else false

/-- Whether the first of the statements returns nothing. -/
def firstReturnsNothing : List Node → Bool
  | [] => false
  | c :: rest =>
    if c.kind == .token || c.kind == .comment then firstReturnsNothing rest else returnsNothing c

end

/-- The gate of a list of statements, up to the first that returns. -/
def ofStatements? (x : Props.Extracted) : List Node → Option Gate
  | [] => none
  | s :: rest =>
    if s.kind == .ifStatement then
      match (s.child? .condition).bind (subject? x), s.child? .consequence with
      | some (prop, truth), some consequence =>
        if returnsNothing consequence then some ⟨prop, !truth⟩ else ofStatements? x rest
      | _, _ => ofStatements? x rest
    else if s.kind == .returnStatement then s.firstPart?.bind (ofExpression? x)
    else ofStatements? x rest

/-- The gate of a component, if it tests a boolean prop. -/
def ofComponent? (x : Props.Extracted) (site : Site) : Option Gate :=
  let found := (site.callable.child? .body).bind fun body =>
    if body.kind == .statementBlock then ofStatements? x body.parts else ofExpression? x body
  found.filter fun gate =>
    (x.props.find? (·.name == gate.prop)).any (·.kind == .boolean)

end Visibility
end Transplant
