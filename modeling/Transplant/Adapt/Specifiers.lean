import Transplant.Plan.Siblings
import Transplant.Tree.Walk
import Transplant.Source.Edit

/-!
# Specifiers in a file

A module is named in an import or export statement, in a call of `require`, or in a dynamic import.
The edits here replace each name by what becomes of it in the target project.
-/

namespace Transplant
namespace Specifiers

/-- The string by which a node names a module. -/
def moduleName? (n : Node) : Option Node :=
  match n.kind with
  | .importStatement | .exportStatement => n.child? .source
  | .callExpression =>
    match n.child? .callee, n.child? .arguments with
    | some callee, some args =>
      if callee.kind == .importCallee || callee.text == "require" then
        args.firstPart?.filter (·.kind == .string)
      else none
    | _, _ => none
  | _ => none

/-- The strings by which a tree names modules, with their contents, in source order. -/
def inTree (root : Node) : List (Node × String) :=
  (root.walk.filterMap moduleName?).filterMap fun n => n.stringValue?.map (n, ·)

/-- The edit that puts a new specifier between the quotes, if it is one. -/
def edit? (name : Node) (specifier : String) (new : Option String) : Option Edit :=
  (new.filter (· ≠ specifier)).map fun s => ⟨name.start + 1, name.stop - 1, s⟩

/-- The edits of some specifiers, one after the other, with the plan that results. -/
def editsFrom (b : Batch) (p : Plan) : List (Node × String) → Except PlanError (Plan × List Edit)
  | [] => .ok (p, [])
  | (name, specifier) :: rest =>
    match b.resolve p specifier with
    | (_, .error e) => .error e
    | (p, .ok new) =>
      (editsFrom b p rest).map fun r => (r.1, (edit? name specifier new).toList ++ r.2)

/-- The edits of the specifiers of a tree. -/
def edits (b : Batch) (p : Plan) (root : Node) : Except PlanError (Plan × List Edit) :=
  editsFrom b p (inTree root)

end Specifiers
end Transplant
