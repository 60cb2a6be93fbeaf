import Transplant.Component.Imports
import Transplant.Files.Access
import Transplant.Migration.Job
import Transplant.Report.Log

/-!
# Finding the files of a project

Component files are told by their endings, and by not being tests or stories. They are looked for
below the directories that are configured, style files below the whole project. Directories with
ignored names are not entered.

* `Discovery.below`: the files below a directory
* `Discovery.components`, `Discovery.styles`: the files of a project, in order
* `Discovery.discover`: the component files, if all of them are in the project
-/

namespace Transplant
namespace Discovery

/-- The endings of component files. -/
def componentEndings : List String := [".js", ".jsx", ".tsx"]

/-- What is in the name of a file that goes with a component but is none. -/
def otherMarks : List String := [".test.", ".spec.", ".stories."]

mutual

/-- The places of the files below `above`, without those in ignored directories. -/
def below (ignored : List String) (above : List String) : FileTree → List (List String)
  | .file _ => [above]
  | .directory entries => belowEntries ignored above entries

/-- The places of the files in the entries of a directory at `above`. -/
def belowEntries (ignored : List String) (above : List String) :
    List (String × FileTree) → List (List String)
  | [] => []
  | (name, child) :: rest =>
    (if child.isDirectory && ignored.contains name then [] else below ignored (above ++ [name]) child)
      ++ belowEntries ignored above rest

end

/-- Whether a file of a name can hold a component. -/
def isComponent (name : String) : Bool :=
  componentEndings.contains (Text.lower (Path.ofString name).suffix) &&
    !otherMarks.any (Text.contains name)

/-- Whether a file of a name holds styles. -/
def isStyle (name : String) : Bool := Text.endsWithAny (Text.lower name) Imports.styleEndings

/-- The places of the files below a directory of the source project whose names pass a test, as seen
from the directory; nothing if there is no such directory. -/
def places? (files : Disk) (j : Job) (wanted : String → Bool) (dir : String) :
    Option (List (List String)) :=
  match files.at? (j.sourceDir.child dir) with
  | .ok (.directory entries) =>
    some ((belowEntries j.ignoreDirs [] entries).filter fun place =>
      wanted (place.getLast?.getD ""))
  | _ => none

/-- The way from the source project to a place below a directory.  There is none if the directory
is absolute and somewhere else. -/
def way (j : Job) (dir : String) (place : List String) : Except PathError Path :=
  (j.sourceDir.child dir ++ ⟨"", place⟩).relativeTo j.sourceDir

/-- The paths of these files as seen from the project. -/
def search? (files : Disk) (j : Job) (wanted : String → Bool) (dir : String) :
    Option (List String) :=
  (places? files j wanted dir).map fun places =>
    places.filterMap fun place => (way j dir place).toOption.map Path.toString

/-- The directories that are searched for components. -/
def roots (j : Job) : List String := if j.componentDirs.isEmpty then [""] else j.componentDirs

/-- The component files of the source project, in order, with warnings about directories that are
not there. -/
def components (files : Disk) (j : Job) : List String × List LogLine :=
  let found := (roots j).map fun dir => (dir, search? files j isComponent dir)
  let warnings := (found.filter (·.2.isNone)).map fun r =>
    let root := (j.sourceDir.child r.1).toString
    LogLine.mk .warning .batch s!"Component directory not found, skipping: {root}"
  (Text.sort (Text.distinct (found.flatMap fun r => r.2.getD [])), warnings)

/-- Whether a walk comes by the first place no later than by the second: the files of a directory
come first, and its directories come in the order of their names. -/
def walkedFirst : List String → List String → Bool
  | a :: b :: as, c :: d :: cs => if a = c then walkedFirst (b :: as) (d :: cs) else Text.notAfter a c
  | _ :: _ :: _, _ => false
  | _, _ => true

/-- What is wrong with the first component file that is found outside of the source project. -/
def stray? (files : Disk) (j : Job) : Option PathError :=
  (roots j).findSome? fun dir =>
    (((places? files j isComponent dir).getD []).mergeSort walkedFirst).findSome? fun place =>
      match way j dir place with
      | .ok _ => none
      | .error e => some e

/-- The component files of the source project with warnings, if none is found outside of it. -/
def discover (files : Disk) (j : Job) : Except PathError (List String × List LogLine) :=
  match stray? files j with
  | some e => .error e
  | none => .ok (components files j)

/-- The style files of the source project, in order. -/
def styles (files : Disk) (j : Job) : List String :=
  Text.sort ((search? files j isStyle "").getD [])

end Discovery
end Transplant
