import Transplant.Component.Descriptor
import Transplant.Path.Pure
import Transplant.Specifier.Redirect

/-!
# Plans

A `Plan` says what becomes of one component: where it goes, which names change, and what there is
to be said about it. A conflict that makes the component impossible to migrate is recorded in the
plan and raised together with it, as a `Refusal`.
-/

namespace Transplant

/-- Why a component cannot be migrated. -/
inductive Conflict where
  /-- Two names of the file would get the same new name. -/
  | sameTarget (first second target : String)
  /-- Another file has the new name of the component. -/
  | nameTaken (name owner : String)
  /-- Another file goes to the same place. -/
  | pathTaken (path owner : String)
  /-- The new name of something is in use in the file. -/
  | nameUsed (source target : String)
  /-- No rule says what becomes of an import. -/
  | unresolved (specifier : String)
deriving DecidableEq, Repr

/-- The two kinds of conflicts. -/
inductive ConflictKind where
  | namingCollision
  | unresolvedImport
deriving DecidableEq, Repr

/-- The word for a kind of conflict. -/
def ConflictKind.name : ConflictKind → String
  | .namingCollision => "NamingCollision"
  | .unresolvedImport => "UnresolvedImport"

namespace Conflict

/-- What kind of conflict it is. -/
def kind : Conflict → ConflictKind
  | .unresolved _ => .unresolvedImport
  | _ => .namingCollision

/-- The name, path or specifier that the conflict is about. -/
def subject : Conflict → String
  | .sameTarget _ _ target => target
  | .nameTaken name _ => name
  | .pathTaken path _ => path
  | .nameUsed _ target => target
  | .unresolved specifier => specifier

/-- What the conflict is. -/
def detail : Conflict → String
  | .sameTarget first second target => s!"'{first}' and '{second}' both map to '{target}'"
  | .nameTaken name owner => s!"target name '{name}' is already used by {owner}"
  | .pathTaken path owner => s!"target path {path} is already used by {owner}"
  | .nameUsed source target =>
    s!"'{source}' would be renamed to '{target}', which is already used in the file"
  | .unresolved specifier => s!"No import rewrite rule matches '{specifier}'"

/-- The wording of the conflict in a given file. -/
def message (c : Conflict) (source : String) : String :=
  match c.kind with
  | .namingCollision => s!"Naming collision in {source}: {c.detail}"
  | .unresolvedImport => s!"{c.detail} in {source}"

end Conflict

/-- What becomes of one component. -/
structure Plan where
  descriptor : Descriptor
  targetPath : Path
  renames : Table String
  rules : List Redirect
  conflicts : List Conflict := []
  warnings : List String := []
  /-- Whether the target path was given for this very file. -/
  pathOverridden : Bool
  /-- The style files of the source project that the component imports. -/
  assets : List String := []
deriving DecidableEq

namespace Plan

/-- The name of the component after the migration. -/
def targetName (p : Plan) : String := (p.renames.get? p.descriptor.name).getD p.descriptor.name

/-- The plan with one more warning. -/
def warn (p : Plan) (warning : String) : Plan := { p with warnings := p.warnings ++ [warning] }

/-- The plan with a conflict recorded. -/
def record (p : Plan) (c : Conflict) : Plan := { p with conflicts := insertNew p.conflicts c }

/-- The plan with a style file noted, once. -/
def note (p : Plan) (asset : String) : Plan := { p with assets := insertNew p.assets asset }

end Plan

/-- A conflict with the plan that it was found in and is recorded in. -/
structure Refusal where
  conflict : Conflict
  plan : Plan
deriving DecidableEq

namespace Refusal

/-- The refusal of a plan because of a conflict. -/
def of (plan : Plan) (conflict : Conflict) : Refusal := ⟨conflict, plan.record conflict⟩

/-- The wording of a refusal. -/
def message (r : Refusal) : String := r.conflict.message r.plan.descriptor.sourcePath

end Refusal
end Transplant
