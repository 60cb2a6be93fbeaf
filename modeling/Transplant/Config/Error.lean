import Transplant.Data.Fault
import Transplant.Data.Value
import Transplant.Specifier.Pattern
import Transplant.Text.Utf8

/-!
# Errors in configurations
-/

namespace Transplant

/-- Why a configuration is rejected. -/
inductive ConfigError where
  | notStringTable (key : String)
  | notString (key name : String)
  | unknownStyle (value : Value)
  | unknownMismatch (value : Value)
  | invalidSuffix (value : Value)
  | invalidRename (source target name : String)
  | notTable (name : String)
  | notStringList (key : String)
  | badPattern (cause : Pattern.Malformed)
  | tooFewWorkers (count : Int)
  | notFound (path : String)
  | unreadable (path cause : String)
  | invalidToml (path : String)
deriving BEq, Repr

/-- The wording of a rejected configuration. -/
def ConfigError.message : ConfigError → String
  | .notStringTable key => s!"[naming.{key}] must be a table of strings"
  | .notString key name => s!"[naming.{key}] value for {Text.quoted name} must be a string"
  | .unknownStyle value => s!"Unknown default prop style: {value.asText}"
  | .unknownMismatch value => s!"Unknown mismatch strategy: {value.asText}"
  | .invalidSuffix value => s!"Invalid provenance suffix: {value.shown}"
  | .invalidRename source target name =>
    s!"Invalid rename override {Text.quoted source} -> {Text.quoted target}: " ++
      s!"{Text.quoted name} is not an identifier"
  | .notTable name => s!"[{name}] must be a table"
  | .notStringList key => s!"[discovery.{key}] must be a list of strings"
  | .badPattern cause => cause.message
  | .tooFewWorkers count => s!"--workers must be at least 1, got {count}"
  | .notFound path => s!"Config file not found: {path}"
  | .unreadable path cause => s!"Could not read config file {path}: {cause}"
  | .invalidToml path => s!"Invalid TOML in {path}"

/-- Why there is no configuration. -/
inductive ConfigFault where
  | rejected (cause : ConfigError)
  /-- A value is of a kind in which a slash cannot be looked for. -/
  | notSearchable (value : Value)
  /-- A whole number in a value has too many digits to be written out, where a name is made of the
  value or a message has to show it. -/
  | unwritable (value : Value)
  /-- The bytes of the file are no text. -/
  | undecodable (fault : Utf8.Fault)
  /-- A whole number in the file has too many digits. -/
  | tooLong (digits : Nat)
  /-- Nothing is left of the name of the file. -/
  | unnamed
  /-- Nothing is left of the number of files to work on at once. -/
  | uncounted
deriving BEq, Repr

end Transplant
