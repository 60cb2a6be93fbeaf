import Transplant.Config.Settings

/-!
# The flags of the program

A `Flag` is something that a user may ask for besides the two projects, with one or two spellings.
Some flags stand alone, others take a value.

* `Flag.all`: all flags, in the order in which they are offered
* `Flag.named?`: the flag with a spelling
* `Flag.label`: how a flag is referred to in a complaint
-/

namespace Transplant
namespace CommandLine

/-- What a user may ask for besides the two projects. -/
inductive Flag where
  | help
  | tag
  | dryRun
  | generateTests
  | config
  | importPrefix
  | rename
  | defaultStyle
  | testAttribute
  | strictImports
  | workers
  | verbose
deriving DecidableEq, Repr

namespace Flag

/-- All flags, in the order in which they are offered. -/
def all : List Flag :=
  [.help, .tag, .dryRun, .generateTests, .config, .importPrefix, .rename, .defaultStyle,
   .testAttribute, .strictImports, .workers, .verbose]

/-- The spellings of a flag. -/
def spellings : Flag → List String
  | .help => ["-h", "--help"]
  | .tag => ["--tag", "-t"]
  | .dryRun => ["--dry-run"]
  | .generateTests => ["--generate-tests"]
  | .config => ["--config", "-c"]
  | .importPrefix => ["--import-prefix", "-i"]
  | .rename => ["--rename", "-r"]
  | .defaultStyle => ["--default-prop-style"]
  | .testAttribute => ["--test-attribute"]
  | .strictImports => ["--strict-imports"]
  | .workers => ["--workers", "-w"]
  | .verbose => ["--verbose", "-v"]

/-- Whether a flag takes a value. -/
def takesValue : Flag → Bool
  | .help | .dryRun | .generateTests | .strictImports | .verbose => false
  | .tag | .config | .importPrefix | .rename | .defaultStyle | .testAttribute | .workers => true

/-- What a flag does, in one line. -/
def purpose : Flag → String
  | .help => "show this help"
  | .tag => "provenance tag; migrated files go under \"components_migrated_from_<tag>\""
  | .dryRun => "report what would change without writing files"
  | .generateTests => "generate Jest tests for migrated components"
  | .config => "TOML configuration file (default: ./component_migrator.toml)"
  | .importPrefix => "import rule \"source_prefix:target_prefix\"; may be repeated"
  | .rename => "component rename \"SourceName:TargetName\"; may be repeated"
  | .defaultStyle => "how prop defaults are encoded"
  | .testAttribute => "test attribute name used by the target project (e.g. data-testid)"
  | .strictImports => "fail a file when a relative import matches no rule"
  | .workers => "number of files worked on at once (default: 4)"
  | .verbose => "tell more"

/-- How a flag is referred to in a complaint. -/
def label (f : Flag) : String := Text.join "/" f.spellings

/-- The flag with a spelling. -/
def named? (spelling : String) : Option Flag := all.find? (·.spellings.contains spelling)

/-- All spellings with their flags, in the order in which they are offered. -/
def offered : List (String × Flag) := all.flatMap fun f => f.spellings.map (·, f)

/-- The spellings that begin with a text. -/
def beginning (lead : String) : List (String × Flag) :=
  offered.filter fun s => Text.startsWith s.1 lead

theorem mem_all (f : Flag) : f ∈ all := by cases f <;> decide

theorem named?_spelling (f : Flag) : ∀ s ∈ f.spellings, named? s = some f := by
  cases f <;> decide

end Flag
end CommandLine
end Transplant
