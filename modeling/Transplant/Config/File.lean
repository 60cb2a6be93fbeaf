import Transplant.Config.Error
import Transplant.Files.Access
import Transplant.Toml.Document

/-!
# Configuration files

A configuration is read from the file that is named, or else from one of a fixed name, which may be
missing. Its part about discovery says where components are looked for.
-/

namespace Transplant
namespace ConfigFile

/-- The name of the file that is read if none is named. -/
def defaultName : String := "component_migrator.toml"

/-- The table in a configuration file. -/
def load (files : Disk) (config : Option Path) (root : Path) :
    Except ConfigFault (Table Value) :=
  let path := config.getD (root.child defaultName)
  match files.readText path with
  | .ok text =>
    match Toml.parse text with
    | .ok entries => .ok (Table.ofPairs entries)
    | .error .malformed => .error (.rejected (.invalidToml path.toString))
    | .error (.tooLong digits) => .error (.tooLong digits)
  | .error (.undecodable fault) => .error (.undecodable fault)
  | .error (.file cause) =>
    if ReadError.isMissing (.file cause) then
      match config with
      | some _ => .error (.rejected (.notFound path.toString))
      | none => .ok Table.empty
    else .error (.rejected (.unreadable path.toString cause.message))

/-- The list of texts under a key, if the key is there. -/
def textsOf (data : Table Value) (key : String) : Except ConfigError (Option (List String)) :=
  match data.get? key with
  | none => .ok none
  | some v =>
    match v.texts? with
    | some l => .ok (some l)
    | none => .error (.notStringList key)

/-- Where components are looked for, as far as it is configured. -/
structure Discovery where
  componentDirs : Option (List String)
  ignoreDirs : Option (List String)
deriving DecidableEq, Repr

/-- The part of a configuration about discovery. -/
def discovery (data : Table Value) : Except ConfigError Discovery := do
  let componentDirs ← textsOf data "component_dirs"
  let ignoreDirs ← textsOf data "ignore_dirs"
  return { componentDirs, ignoreDirs }

end ConfigFile
end Transplant
