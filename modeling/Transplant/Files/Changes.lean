import Transplant.Files.Tree

/-!
# What changed between two file trees

* `FileTree.written`: the files of the later tree that are new or have other content
-/

namespace Transplant
namespace FileTree

/-- Whether a file with this content is at a place. -/
def holds (t : FileTree) (place : List String) (content : Bytes) : Bool :=
  match t.get? place with
  | some (.file present) => present == content
  | _ => false

/-- The files of the later tree that are new or have other content. -/
def written (before after : FileTree) : List (List String × Bytes) :=
  after.files.filter fun f => !before.holds f.1 f.2

/-- The places of the files of the earlier tree where the later one has no file. -/
def gone (before after : FileTree) : List (List String) :=
  (before.files.map (·.1)).filter fun place =>
    match after.get? place with
    | some (.file _) => false
    | _ => true

end FileTree
end Transplant
