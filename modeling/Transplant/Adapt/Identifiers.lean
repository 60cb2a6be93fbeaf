import Transplant.Plan.Basic
import Transplant.Source.Edit
import Transplant.Tree.Walk

/-!
# Renamed identifiers

Names that have a new name are replaced wherever they stand for a variable. In a shorthand property
the name is also a key, which stays. A new name must not be in use already, unless it is itself
replaced.
-/

namespace Transplant
namespace Identifiers

/-- Whether a node stands for a variable and for a key at once. -/
def isShorthand (n : Node) : Bool :=
  n.kind == .shorthandPropertyIdentifier || n.kind == .shorthandPropertyIdentifierPattern

/-- The names that stand alone in a tree. -/
def used (root : Node) : List String :=
  (root.walk.filter (·.kind == .identifier)).map (·.text)

/-- The first new name that is in use and stays in use. -/
def clash? (renames : Table String) (used : List String) : Option Conflict :=
  (renames.entries.find? fun e => used.contains e.2 && !renames.contains e.2).map fun e =>
    .nameUsed e.1 e.2

/-- The edit of a node whose name has a new name. -/
def edit? (renames : Table String) (n : Node) : Option Edit :=
  if n.kind == .identifier then
    (renames.get? n.text).map fun target => ⟨n.start, n.stop, target⟩
  else if isShorthand n then
    (renames.get? n.text).map fun target => ⟨n.start, n.stop, n.text ++ ": " ++ target⟩
  else none

/-- The edits that give the names of a tree their new names. -/
def edits (p : Plan) (root : Node) : Except Refusal (List Edit) :=
  if p.renames.isEmpty then .ok []
  else match clash? p.renames (used root) with
    | some conflict => .error (.of p conflict)
    | none => .ok (root.walk.filterMap (edit? p.renames))

end Identifiers
end Transplant
