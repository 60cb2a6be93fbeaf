import Transplant.Plan.Batch
import Transplant.Specifier.Alias

/-!
# Imports within a batch

A relative specifier can name another file of the batch: exactly, without its ending, or by the
directory whose index it is. Such imports follow the files to their new places. All other imports
go by the redirects of the batch, and relative ones also by the aliases of the target.

* `Batch.file?`: the file of the batch that a specifier names
* `Batch.siblingSpecifier`: how that file is named after the migration
* `Batch.resolve`: what becomes of a specifier
-/

namespace Transplant

/-- How a specifier names a file. -/
inductive Form where
  | exact
  | extension
  | index
deriving DecidableEq, Repr

/-- A file of the batch, and how a specifier names it. -/
structure Sibling where
  path : String
  form : Form
deriving DecidableEq, Repr

namespace Batch

/-- The endings that a specifier may leave out, in the order in which they are tried. -/
def sourceEndings : List String := [".jsx", ".tsx", ".js", ".ts"]

/-- What a specifier in a file leads to, as a path of the source project. -/
def baseOf (source specifier : String) : String :=
  Lexical.normalize (Lexical.join (Lexical.parent source) specifier)

/-- The files that a path can stand for, in the order in which they are tried. -/
def candidates (base : String) : List Sibling :=
  ⟨base, .exact⟩ ::
    (sourceEndings.map (fun e => ⟨base ++ e, .extension⟩) ++
      sourceEndings.map (fun e => ⟨base ++ "/index" ++ e, .index⟩))

/-- Whether the batch has the file; style files have to be named exactly. -/
def has (b : Batch) (s : Sibling) : Bool :=
  b.files.contains s.path || (s.form == .exact && b.assets.contains s.path)

/-- The file of the batch that a specifier names. -/
def file? (b : Batch) (source specifier : String) : Option Sibling :=
  let base := baseOf source specifier
  if Text.startsWith base ".." then none else (candidates base).find? b.has

/-- How the new place of a file is spelled for the form in which it is named. -/
def spelled (target : Path) : Form → Except PathError String
  | .exact => .ok target.toString
  | .extension => (target.withoutSuffix false).map (·.toString)
  | .index => .ok target.parent.toString

/-- How a file of the batch is named after the migration. If that means the same as before, the
specifier stays as it was written. -/
def siblingSpecifier (b : Batch) (p : Plan) (specifier : String) (s : Sibling) :
    Except PathError String := do
  let (target, _) ← b.targetOf s.path none
  let own ← p.targetPath.relativeTo b.root
  let target ← spelled target s.form
  let relative := dotted (Lexical.relative target own.parent.toString)
  return if Lexical.normalize relative = Lexical.normalize specifier then specifier else relative

/-- What becomes of a specifier that names no file of the batch: it is redirected, spelled through
an alias of the target, left alone if it names a package, or unresolved. -/
inductive Outside where
  | redirected (specifier : String)
  | aliased (specifier : String)
  | package
  | unresolved
deriving DecidableEq, Repr

/-- The alias spelling of a relative specifier that stays inside the project. -/
def aliased? (b : Batch) (source specifier : String) : Option String :=
  let base := baseOf source specifier
  if Text.startsWith base ".." then none else Alias.spell? base b.naming.targetAliases

/-- What becomes of a specifier that names no file of the batch. -/
def outside (b : Batch) (source specifier : String) : Outside :=
  match b.redirects.resolve? specifier with
  | some s => .redirected s
  | none =>
    if Text.startsWith specifier "." then
      match b.aliased? source specifier with
      | some s => .aliased s
      | none => .unresolved
    else .package

/-- The file of the batch that a relative specifier names. -/
def sibling? (b : Batch) (source specifier : String) : Option Sibling :=
  if Text.startsWith specifier "." then b.file? source specifier else none

/-- The new specifier, if it changes, and the plan with what there is to note or to warn about. -/
def resolve (b : Batch) (p : Plan) (specifier : String) :
    Plan × Except PlanError (Option String) :=
  let source := p.descriptor.sourcePath
  match b.sibling? source specifier with
  | some s =>
    let p := if b.assets.contains s.path then p.note s.path else p
    (p, ((b.siblingSpecifier p specifier s).map some).mapError .badPath)
  | none =>
    match b.outside source specifier with
    | .redirected s | .aliased s => (p, .ok (some s))
    | .package => (p, .ok none)
    | .unresolved =>
      let conflict := Conflict.unresolved specifier
      match b.naming.mismatch with
      | .strict => (p.record conflict, .error (.refused (.of p conflict)))
      | .approximate => (p.warn (conflict.detail ++ "; left unchanged"), .ok none)

end Batch
end Transplant
