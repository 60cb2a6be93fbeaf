import Transplant.Config.Error
import Transplant.Plan.Naming
import Transplant.Text.Identifier

/-!
# Settings

`Settings` are the conventions of a target project as they are configured: values that nobody has
looked at yet. Checking them is a step of its own, and `Settings.naming` is what they mean.

* `Settings.validate`: rejects unknown options, unusable suffixes and names that are no names
* `Settings.update`: the settings with those of a table put over them, checked
* `Settings.naming`: the conventions that the settings stand for
-/

namespace Transplant

/-- Conventions of a target project as configured. -/
structure Settings where
  importPrefixes : Table String := Table.empty
  testAttribute : Value := .text "data-testid"
  defaultStyle : Value := .text "explicit-default"
  suffix : Value := .text "migrated_from_source"
  renames : Table String := Table.empty
  pathOverrides : Table String := Table.empty
  mismatch : Value := .text "approximate"
  header : Bool := true
  subdir : Value := .text "src"
  targetAliases : Table String := Table.empty

namespace Settings

/-- The styles of defaults. -/
def styles : List String := ["explicit-default", "assigned-defaults-object"]

/-- The strategies for imports that no rule covers. -/
def strategies : List String := ["approximate", "strict"]

/-- The suffix for a tag. -/
def suffixFor (tag : String) : String := "migrated_from_" ++ tag

/-- Whether the value is one of the texts. -/
def isOneOf (v : Value) (texts : List String) : Bool := v.text?.any texts.contains

/-- Whether there is a slash in a text, among the elements of a list, or among the keys of a
table. In other values none can be looked for. -/
def hasSlash? : Value → Option Bool
  | .text s => some (s.toList.contains '/')
  | .list items => some (items.any fun v => v.text? == some "/")
  | .table entries => some (entries.any fun e => e.1 == "/")
  | _ => none

/-- The fault of a value that is refused with an error that shows it. -/
def refused (v : Value) (e : ConfigError) : ConfigFault :=
  if v.isWritable then .rejected e else .unwritable v

/-- Checks the suffix: it must not be empty nor have a slash. -/
def checkSuffix (v : Value) : Except ConfigFault Unit :=
  if !v.isTruthy then .error (refused v (.invalidSuffix v))
  else match hasSlash? v with
    | none => .error (.notSearchable v)
    | some true => .error (refused v (.invalidSuffix v))
    | some false => .ok ()

/-- The first name in a new name for something that is no identifier. -/
def badRename? (entry : String × String) : Option ConfigError :=
  ([entry.1, entry.2].find? fun name => !Text.isIdentifier name).map
    (.invalidRename entry.1 entry.2 ·)

/-- Checks settings. -/
def validate (s : Settings) : Except ConfigFault Settings := do
  if !isOneOf s.defaultStyle styles then
    throw (refused s.defaultStyle (.unknownStyle s.defaultStyle))
  if !isOneOf s.mismatch strategies then throw (refused s.mismatch (.unknownMismatch s.mismatch))
  checkSuffix s.suffix
  match s.renames.entries.findSome? badRename? with
  | some e => throw (.rejected e)
  | none => return s

/-- The settings for a tag. -/
def forTag (tag : Value) : Settings := { suffix := .text (suffixFor tag.asText) }

/-- An entry of the table under a key, whose value has to be a text. -/
def stringEntry (key : String) (entry : String × Value) : Except ConfigError (String × String) :=
  match entry.2 with
  | .text s => .ok (entry.1, s)
  | _ => .error (.notString key entry.1)

/-- The texts of the table under a key. -/
def stringTable (key : String) (value : Value) : Except ConfigError (Table String) :=
  match value with
  | .table entries => (entries.mapM (stringEntry key)).map Table.ofPairs
  | _ => .error (.notStringTable key)

/-- The table under a key, or else the one that is there already. -/
def tableOr (data : Table Value) (key : String) (present : Table String) :
    Except ConfigError (Table String) :=
  match data.get? key with
  | some value => stringTable key value
  | none => .ok present

/-- The suffix that a table gives, by itself or by a tag. -/
def suffixOr (data : Table Value) (present : Value) : Value :=
  match data.get? "provenance_suffix", data.get? "tag" with
  | some suffix, _ => suffix
  | none, some tag => .text (suffixFor tag.asText)
  | none, none => present

/-- Checks the tag, which is written out if a suffix is made of it. -/
def checkTag (data : Table Value) : Except ConfigFault Unit :=
  match data.get? "provenance_suffix", data.get? "tag" with
  | none, some tag => if tag.isWritable then .ok () else .error (.unwritable tag)
  | _, _ => .ok ()

/-- The settings with those of a table put over them. -/
def override (s : Settings) (data : Table Value) : Except ConfigError Settings := do
  let importPrefixes ← tableOr data "import_prefix_map" s.importPrefixes
  let renames ← tableOr data "rename_overrides" s.renames
  let pathOverrides ← tableOr data "path_overrides" s.pathOverrides
  return { s with
    importPrefixes, renames, pathOverrides
    testAttribute := (data.get? "test_attribute_convention").getD s.testAttribute
    defaultStyle := (data.get? "default_prop_style").getD s.defaultStyle
    suffix := suffixOr data s.suffix
    mismatch := (data.get? "mismatch_strategy").getD s.mismatch
    subdir := (data.get? "target_subdir").getD s.subdir
    header := ((data.get? "provenance_header").map Value.isTruthy).getD s.header }

/-- The settings with those of a table put over them, checked. -/
def update (s : Settings) (data : Table Value) : Except ConfigFault Settings := do
  let s ← (s.override data).mapError .rejected
  checkTag data
  s.validate

/-- A value that stands for a name. -/
def nameOf : Value → NameSetting
  | .text name => .text name
  | v => .other v.asText v.typeName

/-- The conventions that settings stand for. -/
def naming (s : Settings) : Naming where
  importPrefixes := s.importPrefixes
  testAttribute := if s.testAttribute.isTruthy then some (nameOf s.testAttribute) else none
  defaultStyle := if s.defaultStyle.text? = some "explicit-default" then .explicit else .assigned
  suffix := s.suffix.asText
  renames := s.renames
  pathOverrides := s.pathOverrides
  mismatch := if s.mismatch.text? = some "strict" then .strict else .approximate
  header := s.header
  subdir := nameOf s.subdir
  targetAliases := s.targetAliases

/-- The directory that all migrated files go below. -/
def directory (s : Settings) : String := Naming.directoryFor s.suffix.asText

end Settings
end Transplant
