import Transplant.Data.Json
import Transplant.Files.Access
import Transplant.Report.Log
import Transplant.Specifier.Alias

/-!
# What a project says about itself

Path aliases are declared in `tsconfig.json`, or else in `jsconfig.json`; the framework is told by
the packages that `package.json` asks for. A file that cannot be used is passed over with a warning.

* `Project.aliases`: the path aliases of a project
* `Project.framework`: its framework
-/

namespace Transplant
namespace Project

/-- The files that declare path aliases, in the order in which they are tried. -/
def aliasFiles : List String := ["tsconfig.json", "jsconfig.json"]

/-- What can be learnt from a file: that there is none, that it cannot be used, or its value. -/
inductive Glance where
  | missing
  | unusable
  | value (v : Value)

/-- Why nothing can be said about a project. -/
inductive Trouble where
  /-- The manifest is no object. -/
  | notObject (path : String)
  /-- A file has a whole number with too many digits. -/
  | tooLong (digits : Nat)
deriving DecidableEq, Repr

/-- Reads a JSON file. -/
def glance (files : Disk) (p : Path) : Except Trouble Glance :=
  match files.readText p with
  | .error e => .ok (if e.isMissing then .missing else .unusable)
  | .ok text =>
    match Json.parse text with
    | .ok v => .ok (.value v)
    | .error .malformed => .ok .unusable
    | .error (.tooLong digits) => .error (.tooLong digits)

/-- The aliases that a configuration declares, if it declares any. -/
def declared? (v : Value) : Option (Table String) := do
  let options ← v.get? "compilerOptions"
  match ← options.get? "paths" with
  | .table paths =>
    let base := ((options.get? "baseUrl").getD (.text ".")).text?.getD "."
    return Alias.ofPaths (Table.ofPairs paths) base
  | _ => none

/-- The aliases in the first of some files that declares any, with warnings about unusable ones. -/
def aliasesFrom (files : Disk) (dir : Path) :
    List String → Except Trouble (Table String × List LogLine)
  | [] => .ok (Table.empty, [])
  | name :: rest => do
    let path := dir.child name
    match ← glance files path with
    | .missing => aliasesFrom files dir rest
    | .unusable =>
      let (aliases, log) ← aliasesFrom files dir rest
      return (aliases, ⟨.warning, .config, s!"Ignoring path aliases in {path.toString}"⟩ :: log)
    | .value v =>
      match declared? v with
      | some aliases => return (aliases, [])
      | none => aliasesFrom files dir rest

/-- The path aliases of a project. -/
def aliases (files : Disk) (dir : Path) : Except Trouble (Table String × List LogLine) :=
  aliasesFrom files dir aliasFiles

/-- The packages that tell a framework, most telling first. -/
def frameworkPackages : List (String × String) :=
  [("next", "next"), ("react", "react"), ("vue", "vue"), ("@angular/core", "angular"),
    ("svelte", "svelte"), ("solid-js", "solid"), ("preact", "preact")]

/-- The parts of a manifest that ask for packages. -/
def dependencyKeys : List String := ["dependencies", "devDependencies", "peerDependencies"]

/-- The packages that a manifest asks for. -/
def dependencies (manifest : Value) : List String :=
  dependencyKeys.flatMap fun key =>
    match manifest.get? key with
    | some (.table entries) => entries.map (·.1)
    | _ => []

/-- The framework that some packages tell. -/
def frameworkOf? (packages : List String) : Option String :=
  (frameworkPackages.find? fun f => packages.contains f.1).map (·.2)

/-- The framework of a project. -/
def framework (files : Disk) (dir : Path) :
    Except Trouble (Option String × List LogLine) := do
  let path := dir.child "package.json"
  match ← glance files path with
  | .missing => return (none, [])
  | .unusable => return (none, [⟨.warning, .batch, s!"Could not read {path.toString}"⟩])
  | .value v =>
    match v with
    | .table _ => return (frameworkOf? (dependencies v), [])
    | _ => throw (.notObject path.toString)

end Project
end Transplant
