import Transplant.CommandLine.Token
import Transplant.Number.Integer
import Transplant.Path.Pure

/-!
# Command lines

A command line names two projects, with flags before, between and after them. Reading goes from left
to right; what the flags ask for is collected in `Requests`, and the first thing that makes no sense
ends it. Words that nobody asked for are collected too and complained about in the end.

The separator `--` is dropped once from what belongs to a project or a flag. Where it is all that
there is, nothing remains: a `Given` without a value.

* `Arguments`: what a command line says
* `UsageError`: why a command line makes no sense
* `Arguments.ofList`: reads a command line
-/

namespace Transplant
namespace CommandLine

/-- What is given where a value is due. -/
inductive Given (α : Type) where
  | value (a : α)
  /-- All that was there is the separator. -/
  | nothing
deriving DecidableEq, Repr

namespace Given

/-- What a text gives, the separator dropped. -/
def ofText (text : String) : Given String := if text = "--" then .nothing else .value text

/-- What is given, changed by a function. -/
def map {α β : Type} (f : α → β) : Given α → Given β
  | .value a => .value (f a)
  | .nothing => .nothing

/-- The value, if there is one. -/
def value? {α : Type} : Given α → Option α
  | .value a => some a
  | .nothing => none

/-- What is shown of a text that is given. -/
def shown : Given String → String
  | .value text => text
  | .nothing => "[]"

end Given

/-- What the flags of a command line ask for. -/
structure Requests where
  tag : Option (Given String) := none
  dryRun : Bool := false
  generateTests : Bool := false
  config : Option (Given Path) := none
  importPrefixes : List (Given String) := []
  renames : List (Given String) := []
  defaultStyle : Option (Given String) := none
  testAttribute : Option (Given String) := none
  strictImports : Bool := false
  workers : Option (Given Int) := none
  verbose : Bool := false
deriving DecidableEq, Repr

/-- What a command line says. -/
structure Arguments where
  sourceDir : Given Path
  targetDir : Given Path
  requests : Requests
deriving DecidableEq, Repr

/-- Why a command line makes no sense. -/
inductive UsageError where
  | ambiguous (cause : Ambiguous)
  | valueMissing (flag : Flag)
  | valueIgnored (flag : Flag) (value : String)
  | notInteger (flag : Flag) (value : String)
  | notOffered (flag : Flag) (value : String) (choices : List String)
  | required (names : List String)
  | unrecognized (arguments : List String)
deriving DecidableEq, Repr

namespace UsageError

/-- The complaint about a flag. -/
def about (flag : Flag) (words : String) : String := s!"argument {flag.label}: {words}"

/-- The wording of a complaint. -/
def message : UsageError → String
  | .ambiguous cause =>
    s!"ambiguous option: {cause.argument} could match " ++ Text.join ", " cause.candidates
  | .valueMissing flag => about flag "expected one argument"
  | .valueIgnored flag value => about flag ("ignored explicit argument " ++ Text.quoted value)
  | .notInteger flag value => about flag ("invalid int value: " ++ Text.quoted value)
  | .notOffered flag value choices =>
    about flag ("invalid choice: " ++ Text.quoted value ++ " (choose from " ++
      Text.join ", " (choices.map Text.quoted) ++ ")")
  | .required names => "the following arguments are required: " ++ Text.join ", " names
  | .unrecognized arguments => "unrecognized arguments: " ++ Text.join " " arguments

end UsageError

/-- Why reading a command line ends early. -/
inductive Stop where
  /-- Help is asked for. -/
  | help
  | usage (cause : UsageError)
deriving DecidableEq, Repr

/-- A flag with what it is given, if it takes a value. -/
structure Request where
  flag : Flag
  value : Given String := .nothing
deriving DecidableEq, Repr

namespace Requests

/-- The requests with one more. What may be asked for once only is taken from the last request. -/
def add (r : Requests) (x : Request) : Except Stop Requests :=
  match x.flag with
  | .help => .error .help
  | .tag => .ok { r with tag := some x.value }
  | .dryRun => .ok { r with dryRun := true }
  | .generateTests => .ok { r with generateTests := true }
  | .config => .ok { r with config := some (x.value.map Path.ofString) }
  | .importPrefix => .ok { r with importPrefixes := r.importPrefixes ++ [x.value] }
  | .rename => .ok { r with renames := r.renames ++ [x.value] }
  | .defaultStyle =>
    match x.value.value?.filter fun style => !Settings.styles.contains style with
    | some style => .error (.usage (.notOffered .defaultStyle style Settings.styles))
    | none => .ok { r with defaultStyle := some x.value }
  | .testAttribute => .ok { r with testAttribute := some x.value }
  | .strictImports => .ok { r with strictImports := true }
  | .workers =>
    match x.value with
    | .nothing => .ok { r with workers := some .nothing }
    | .value text =>
      match Integer.ofText? text with
      | some n => .ok { r with workers := some (.value n) }
      | none => .error (.usage (.notInteger .workers text))
  | .verbose => .ok { r with verbose := true }

end Requests

/-- What one argument asks for. -/
structure Reading where
  requests : List Request
  /-- The flag that takes the next word as its value. -/
  awaiting : Option Flag := none
deriving DecidableEq, Repr

namespace Reading

/-- A flag with nothing attached, after other requests of the same argument. -/
def bare (flag : Flag) (before : List Request) : Reading :=
  if flag.takesValue then { requests := before, awaiting := some flag }
  else { requests := before ++ [{ flag }] }

/-- A short flag with characters attached. A flag that takes no value has to be followed by the
letter of another. -/
def cluster (flag : Flag) (before : List Request) : List Char → Except UsageError Reading
  | [] =>
    if flag.takesValue then .ok { requests := before ++ [⟨flag, .value ""⟩] }
    else .error (.valueIgnored flag "")
  | c :: behind =>
    let attached := String.ofList (c :: behind)
    if flag.takesValue then .ok { requests := before ++ [⟨flag, .ofText attached⟩] }
    else
      match Flag.named? (String.ofList ['-', c]) with
      | none => .error (.valueIgnored flag attached)
      | some next =>
        if behind.isEmpty then .ok (bare next (before ++ [{ flag }]))
        else cluster next (before ++ [{ flag }]) behind

/-- What the use of a flag asks for. -/
def ofUse (use : Use) : Except UsageError Reading :=
  match use.attached with
  | none => .ok (bare use.flag [])
  | some text =>
    if use.short then cluster use.flag [] text.toList
    else if use.flag.takesValue then .ok { requests := [⟨use.flag, .ofText text⟩] }
    else .error (.valueIgnored use.flag text)

end Reading

/-- What has been read of a command line. -/
structure Progress where
  /-- The names of the projects, at most two. -/
  projects : List (Given String) := []
  requests : Requests := {}
  /-- Arguments that nobody asked for. -/
  extras : List String := []
deriving DecidableEq, Repr

namespace Progress

/-- The names of what has to be given. -/
def required : List String := ["source_dir", "target_dir"]

/-- Whether all projects are named. -/
def isComplete (p : Progress) : Bool := required.length ≤ p.projects.length

/-- The progress with one more argument that nobody asked for. -/
def withExtra (p : Progress) (text : String) : Progress := { p with extras := p.extras ++ [text] }

/-- The progress with one more project. -/
def withProject (p : Progress) (project : Given String) : Progress :=
  { p with projects := p.projects ++ [project] }

/-- The progress with what an argument asks for. -/
def withReading (p : Progress) (r : Reading) : Except Stop Progress := do
  let requests ← r.requests.foldlM Requests.add p.requests
  return { p with requests }

/-- A reading whose flag got its value. -/
def answered (r : Reading) (flag : Flag) (value : String) : Reading :=
  { r with requests := r.requests ++ [⟨flag, .ofText value⟩], awaiting := none }

/-- Reads tokens. A separator goes with the name of the project behind which it stands, or else with
the name in front of which it stands, which is then taken as it is. -/
def read (p : Progress) : List Token → Except Stop Progress
  | [] => .ok p
  | .word text :: rest =>
    if p.isComplete then read (p.withExtra text) rest
    else read (p.withProject (.ofText text)) (rest.dropWhile (· == .separator))
  | .separator :: .word text :: rest =>
    if p.isComplete then read ((p.withExtra "--").withExtra text) rest
    else read (p.withProject (.value text)) rest
  | .separator :: rest => read (if p.isComplete then p.withExtra "--" else p) rest
  | .unknown text :: rest => read (p.withExtra text) rest
  | .flag use _ :: rest => do
    let reading ← (Reading.ofUse use).mapError .usage
    match reading.awaiting, rest with
    | none, rest => read (← p.withReading reading) rest
    | some flag, .word value :: rest => read (← p.withReading (answered reading flag value)) rest
    | some flag, _ => throw (.usage (.valueMissing flag))
termination_by tokens => tokens.length
decreasing_by
  all_goals simp_all
  all_goals first
    | omega
    | have := (List.dropWhile_sublist (l := rest) (· == Token.separator)).length_le; omega

/-- What the whole command line says, if nothing is missing and nothing too much. -/
def arguments (p : Progress) : Except Stop Arguments :=
  match p.projects, p.extras with
  | sourceDir :: targetDir :: _, [] =>
    .ok ⟨sourceDir.map Path.ofString, targetDir.map Path.ofString, p.requests⟩
  | _ :: _ :: _, extras => .error (.usage (.unrecognized extras))
  | projects, _ => .error (.usage (.required (required.drop projects.length)))

end Progress

/-- Reads a command line. Shortened flags are looked at before all else. -/
def Arguments.ofList (arguments : List String) : Except Stop Arguments := do
  let tokens ← (Token.ofArguments arguments).mapError fun e => .usage (.ambiguous e)
  let progress ← Progress.read {} tokens
  progress.arguments

end CommandLine
end Transplant
