import Transplant.Plan.Basic
import Transplant.Plan.Naming

/-!
# Batches

A `Batch` is a set of files that are migrated together into one target directory. It decides where
each of them goes, and derives the plan of each component.

* `Batch.root`: the directory that all migrated files go below
* `Batch.targetOf`: the place of a file below that directory
* `Batch.plan`: the plan of a component
* `Batch.testPath`, `Batch.testImport`: where the test of a component goes, and how it imports it
-/

namespace Transplant

/-- Files that are migrated together. -/
structure Batch where
  naming : Naming := {}
  targetDir : Path := Path.here
  /-- The component files, as paths of the source project. -/
  files : List String := []
  /-- The style files. -/
  assets : List String := []
deriving Inhabited

/-- Why there is no plan. -/
inductive PlanError where
  | refused (refusal : Refusal)
  | badPath (cause : PathError)
  /-- The directory in the target project is not named by a text. -/
  | namelessDirectory (kind : String)
deriving DecidableEq

/-- The wording of a failed plan. -/
def PlanError.message : PlanError → String
  | .refused r => r.message
  | .badPath e => e.message
  | .namelessDirectory kind => s!"unsupported operand type(s) for /: 'PosixPath' and '{kind}'"

namespace Batch

/-- The directory that all migrated files go below. -/
def root (b : Batch) : Path := (b.targetDir.child b.naming.subdir.shown).child b.naming.directory

/-- That directory, if its name is a text. -/
def root? (b : Batch) : Except PlanError Path :=
  match b.naming.subdir with
  | .text _ => .ok b.root
  | .other _ kind => .error (.namelessDirectory kind)

/-- The redirects of imports. -/
def redirects (b : Batch) : Redirects := Redirects.ofTable b.naming.importPrefixes

/-- The place of a source file below the root, and whether it was given for this very file. A file
is renamed like the component in it, that is, if it is called like it or holds none. -/
def targetOf (b : Batch) (source : String) (component : Option String) :
    Except PathError (Path × Bool) :=
  match b.naming.pathOverrides.get? source with
  | some given => .ok (Path.ofString given, true)
  | none =>
    let path := Path.ofString source
    let stem := path.stem
    let renamed :=
      if component.all (· == stem) then (b.naming.renames.get? stem).getD stem else stem
    (path.withName (renamed ++ path.suffix)).map (·, false)

/-- Where a style file is copied to. -/
def assetPath (b : Batch) (asset : String) : Except PlanError Path := do
  let root ← b.root?
  let (relative, _) ← (b.targetOf asset none).mapError .badPath
  return root ++ relative

/-- The new names of the component and of the components that it uses. -/
def renamesOf (b : Batch) (d : Descriptor) : Table String :=
  Table.ofPairs ((d.name :: Text.sort d.childRefs).filterMap fun name =>
    ((b.naming.renames.get? name).filter (· ≠ name)).map (name, ·))

/-- The first new name that two names share, with these, where `seen` has come before. -/
def sharedFrom? (seen : List (String × String)) : List (String × String) → Option Conflict
  | [] => none
  | (source, target) :: rest =>
    match seen.find? (·.2 == target) with
    | some first => some (.sameTarget first.1 source target)
    | none => sharedFrom? (seen ++ [(source, target)]) rest

/-- The first new name that two names share. -/
def shared? (renames : Table String) : Option Conflict := sharedFrom? [] renames.entries

/-- The plan of a component. -/
def plan (b : Batch) (d : Descriptor) : Except PlanError Plan := do
  let (relative, pathOverridden) ← (b.targetOf d.sourcePath (some d.name)).mapError .badPath
  let root ← b.root?
  let renames := b.renamesOf d
  let plan : Plan := {
    descriptor := d
    targetPath := root ++ relative
    renames
    rules := b.redirects.rules
    pathOverridden }
  match shared? renames with
  | some conflict => throw (.refused (.of plan conflict))
  | none => return plan

/-- Where the test of a component goes. -/
def testPath (b : Batch) (p : Plan) : Path :=
  let ending := if p.targetPath.suffix = "" then ".js" else p.targetPath.suffix
  (b.root.child "__tests__").child (p.targetName ++ ".test" ++ ending)

/-- A path made to begin with a dot, as specifiers of neighbouring files do. -/
def dotted (relative : String) : String :=
  if Text.startsWith relative "." then relative else "./" ++ relative

/-- The specifier by which the test of a component imports it. -/
def testImport (b : Batch) (p : Plan) : Except PathError String :=
  (p.targetPath.withoutSuffix true).map fun target =>
    dotted (Lexical.relative target.toString (b.testPath p).parent.toString)

end Batch
end Transplant
