import Transplant.Plan.Batch

/-!
# The registry of a batch

The components of a batch are accepted one after the other. A `Registry` knows which names and
paths are taken, and refuses a plan that would take one again.
-/

namespace Transplant

/-- The names and paths taken so far, with the source files that took them. -/
structure Registry where
  names : Table String := Table.empty
  paths : List (Path × String) := []

namespace Registry

/-- The registry of a batch at its beginning. -/
def empty : Registry := {}

/-- Whether a source file other than `source` is the owner. -/
def ownedByOther (owner : Option String) (source : String) : Option String :=
  owner.filter (· ≠ source)

/-- The conflict of a plan with those accepted before. A path that was given for this very file may
be taken again. -/
def conflict? (r : Registry) (p : Plan) : Option Conflict :=
  let source := p.descriptor.sourcePath
  match ownedByOther (r.names.get? p.targetName) source with
  | some owner => some (.nameTaken p.targetName owner)
  | none =>
    if p.pathOverridden then none
    else (ownedByOther (r.paths.lookup p.targetPath) source).map
      (.pathTaken p.targetPath.toString ·)

/-- The registry after a plan has been accepted; a path stays with its first owner. -/
def accept (r : Registry) (p : Plan) : Registry :=
  let source := p.descriptor.sourcePath
  { names := r.names.put p.targetName source
    paths := if (r.paths.lookup p.targetPath).isSome then r.paths
      else r.paths ++ [(p.targetPath, source)] }

/-- The registry with one more plan, or the refusal of it. -/
def register (r : Registry) (p : Plan) : Except Refusal Registry :=
  match r.conflict? p with
  | some conflict => .error (.of p conflict)
  | none => .ok (r.accept p)

end Registry
end Transplant
