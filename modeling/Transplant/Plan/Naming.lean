import Transplant.Data.Table
import Transplant.Text.Basic

/-!
# Conventions of a target project

A `Naming` says how migrated components are to look: where they go, what they and their imports are
called, how defaults of props are written, and which attribute marks elements for tests.
-/

namespace Transplant

/-- How the defaults of props are written. -/
inductive DefaultStyle where
  /-- In the parameter of the component. -/
  | explicit
  /-- In an object that is assigned to the component. -/
  | assigned
deriving DecidableEq, Repr, Inhabited

/-- What happens to an import that no rule covers. -/
inductive Mismatch where
  /-- It is left as it is, with a warning. -/
  | approximate
  /-- The file is refused. -/
  | strict
deriving DecidableEq, Repr, Inhabited

/-- A name as it is configured. A value that is no text is shown as one, but it is no name. -/
inductive NameSetting where
  | text (name : String)
  | other (shown kind : String)
deriving DecidableEq, Repr, Inhabited

/-- What is shown of a name. -/
def NameSetting.shown : NameSetting → String
  | .text name => name
  | .other shown _ => shown

/-- The conventions of a target project. -/
structure Naming where
  importPrefixes : Table String := Table.empty
  testAttribute : Option NameSetting := some (.text "data-testid")
  defaultStyle : DefaultStyle := .explicit
  /-- Where the files come from, part of the name of the directory that they go to. -/
  suffix : String := "migrated_from_source"
  renames : Table String := Table.empty
  /-- Target paths of single source files. -/
  pathOverrides : Table String := Table.empty
  mismatch : Mismatch := .approximate
  header : Bool := true
  subdir : NameSetting := .text "src"
  targetAliases : Table String := Table.empty
deriving DecidableEq, Inhabited

namespace Naming

/-- The directory for files with a given suffix. -/
def directoryFor (suffix : String) : String := "components_" ++ suffix

/-- The directory that all migrated files go below. -/
def directory (n : Naming) : String := directoryFor n.suffix

/-- The test attribute that is enforced; an empty name enforces none. -/
def enforced? (n : Naming) : Option NameSetting := n.testAttribute.filter (· ≠ .text "")

end Naming
end Transplant
