import Transplant.Data.Value
import Transplant.Path.Lexical
import Transplant.Specifier.Redirect

/-!
# Path aliases

A project can give its directories aliases, so that `@/ui/Button` means `src/ui/Button`. An alias
table maps beginnings of specifiers to directories, which end with a slash; the empty directory is
the project itself.

* `Alias.ofPaths`: the aliases that a project file declares
* `Alias.spell?`: a path through the alias with the longest directory
* `Alias.redirects`: the redirects that carry the aliases of one project over to another
-/

namespace Transplant
namespace Alias

/-- The directory that the targets of an alias name: the first target, if it is a text with a star
at its end and does not lead out of the project. -/
def directory? (base : String) (targets : Value) : Option String :=
  match targets with
  | .list (.text first :: _) =>
    if Text.endsWith first "*" then
      let directory := Lexical.normalize (Lexical.join base (Text.dropLast first 1))
      if Text.startsWith directory ".." then none
      else some (if directory = "." then "" else directory ++ "/")
    else none
  | _ => none

/-- The alias that an entry declares, if it has a star at its end and a usable target. -/
def ofMapping? (base : String) (entry : String × Value) : Option (String × String) :=
  if Text.endsWith entry.1 "*" then
    (directory? base entry.2).map (Text.dropLast entry.1 1, ·)
  else none

/-- The aliases that a table declares, seen from the directory `base`. -/
def ofPaths (paths : Table Value) (base : String) : Table String :=
  Table.ofPairs (paths.entries.filterMap (ofMapping? base))

/-- The entries in order of their aliases. -/
def sorted (aliases : Table String) : List (String × String) :=
  aliases.entries.mergeSort fun a b => Text.notAfter a.1 b.1

/-- The better of the best entry so far and the next one: the one with the longer directory, the
first of two that are equally long. -/
def better (best : Option (String × String)) (next : String × String) : Option (String × String) :=
  match best with
  | none => some next
  | some b => if Text.size next.2 > Text.size b.2 then some next else best

/-- The entry with the longest directory that the path begins with; of several, the one with the
least alias. -/
def best? (aliases : Table String) (path : String) : Option (String × String) :=
  ((sorted aliases).filter fun e => Text.startsWith path e.2).foldl better none

/-- The path spelled through an alias. -/
def spell? (path : String) (aliases : Table String) : Option String :=
  (best? aliases path).map fun e => e.1 ++ Text.drop path (Text.size e.2)

/-- The redirects that spell the aliases of the source through those of the target. -/
def redirects (source target : Table String) : Table String :=
  Table.ofPairs (source.entries.filterMap fun e =>
    (spell? e.2 target).bind fun replacement =>
      if replacement = e.1 then none else some (e.1, replacement))

end Alias
end Transplant
