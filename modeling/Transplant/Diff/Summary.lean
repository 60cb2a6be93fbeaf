import Transplant.Component.Imports
import Transplant.Files.Access
import Transplant.Source.Basic

/-!
# What a migration would change

The difference between a text and the file whose place it would take: modules imported anew or no
longer, renamed identifiers, and the number of lines.

* `Diff.specifiers`: the modules that a text imports or exports from
* `Diff.Summary.of`: the difference to the file at a path
* `Diff.Summary.render`: the difference in words
-/

namespace Transplant
namespace Diff

/-- Whether there is a file, and whether it would change. -/
inductive Status where
  | new
  | changed
  | unchanged
deriving DecidableEq, Repr

/-- The word for a status. -/
def Status.name : Status → String
  | .new => "new"
  | .changed => "changed"
  | .unchanged => "unchanged"

/-- The difference between a text and a file. -/
structure Summary where
  path : String
  status : Status
  added : List String := []
  removed : List String := []
  renamed : List (String × String) := []
  lineDelta : Int := 0
deriving DecidableEq, Repr

/-- A file that is there and cannot be read. -/
structure Unreadable where
  path : String
  cause : ReadError
deriving DecidableEq, Repr

/-- The wording of an unreadable file. -/
def Unreadable.message (e : Unreadable) : String :=
  s!"Could not read existing target {e.path}: {e.cause.message}"

/-- The module that an import or export statement names. -/
def specifier? (n : Node) : Option String :=
  if n.kind == .importStatement || n.kind == .exportStatement then
    (n.child? .source).bind Node.stringValue?
  else none

/-- The modules that a text imports or exports from, in order and each once. A text with errors is
read as far as possible. -/
def specifiers (text name : String) : List String :=
  Text.sort (Text.distinct ((Source.recover text name).root.walk.filterMap specifier?))

/-- A number with its sign. -/
def signed (n : Int) : String := if n < 0 then toString n else "+" ++ toString n

namespace Summary

/-- The difference in words. -/
def render (s : Summary) : String :=
  Text.join "\n"
    ([s!"{s.path}: {s.status.name}"] ++
      s.added.map ("  + import " ++ ·) ++
      s.removed.map ("  - import " ++ ·) ++
      s.renamed.map (fun e => s!"  ~ rename {e.1} -> {e.2}") ++
      (if s.status = .unchanged then [] else ["  lines " ++ signed s.lineDelta]))

/-- The difference between two texts for one path. -/
def between (generated existing : String) (path : Path) (renamed : List (String × String)) :
    Summary :=
  if existing = generated then { path := path.toString, status := .unchanged, renamed }
  else
    let before := specifiers existing path.name
    let after := specifiers generated path.name
    { path := path.toString
      status := .changed
      added := after.filter (!before.contains ·)
      removed := before.filter (!after.contains ·)
      renamed
      lineDelta := (Text.lineCount generated : Int) - Text.lineCount existing }

/-- The difference between a text and no file. -/
def fresh (generated : String) (path : Path) (renamed : List (String × String)) : Summary where
  path := path.toString
  status := .new
  added := specifiers generated path.name
  renamed
  lineDelta := Text.lineCount generated

/-- The difference that writing a text to a path would make. -/
def of (files : Disk) (generated : String) (path : Path) (renames : Table String) :
    Except Unreadable Summary :=
  let renamed := renames.entries.mergeSort fun a b => Text.notAfter a.1 b.1
  match files.readText path with
  | .ok existing => .ok (between generated existing path renamed)
  | .error e =>
    if e.isMissing then .ok (fresh generated path renamed) else .error ⟨path.toString, e⟩

end Summary
end Diff
end Transplant
