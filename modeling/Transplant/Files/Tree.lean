import Transplant.Data.Table
import Transplant.Text.Utf8

/-!
# File trees

A `FileTree` is a file with its bytes or a directory with named entries. Places in it are lists of
names, without `.` and `..`.

* `FileTree.get?`: what is at a place
* `FileTree.put`, `FileTree.remove`: the tree with something else, or nothing, at a place
* `FileTree.files`: all files with their places
-/

namespace Transplant

/-- A file or a directory. -/
inductive FileTree where
  | file (content : Bytes)
  | directory (entries : List (String × FileTree))
deriving BEq, Repr, Inhabited

namespace FileTree

/-- The directory without entries. -/
def empty : FileTree := .directory []

/-- Whether it is a directory. -/
def isDirectory : FileTree → Bool
  | .directory _ => true
  | .file _ => false

/-- The entries of a directory; a file has none. -/
def entries : FileTree → List (String × FileTree)
  | .directory entries => entries
  | .file _ => []

/-- What is at a place. -/
def get? (t : FileTree) : List String → Option FileTree
  | [] => some t
  | name :: rest => (t.entries.lookup name).bind fun child => child.get? rest

/-- The tree with `x` at a place. Directories on the way are made. -/
def put (t : FileTree) (place : List String) (x : FileTree) : FileTree :=
  match place with
  | [] => x
  | name :: rest =>
    let child := (t.entries.lookup name).getD empty
    .directory (Table.putEntry name (child.put rest x) t.entries)

/-- The tree with nothing at a place. -/
def remove (t : FileTree) : List String → FileTree
  | [] => empty
  | [name] => .directory (t.entries.filter (·.1 != name))
  | name :: rest =>
    match t.entries.lookup name with
    | some child => .directory (Table.putEntry name (child.remove rest) t.entries)
    | none => t

mutual

/-- All files below a place, with their places. -/
def filesFrom (place : List String) : FileTree → List (List String × Bytes)
  | .file content => [(place, content)]
  | .directory entries => filesOf place entries

/-- All files of the entries of a directory, with their places. -/
def filesOf (place : List String) : List (String × FileTree) → List (List String × Bytes)
  | [] => []
  | (name, child) :: rest => filesFrom (place ++ [name]) child ++ filesOf place rest

end

/-- All files with their places. -/
def files (t : FileTree) : List (List String × Bytes) := filesFrom [] t

@[simp] theorem get?_nil (t : FileTree) : t.get? [] = some t := rfl

@[simp] theorem get?_put_self (t : FileTree) (place : List String) (x : FileTree) :
    (t.put place x).get? place = some x := by
  induction place generalizing t with
  | nil => rfl
  | cons name rest ih =>
    simp only [put, get?, entries, Table.lookup_putEntry, if_true]
    exact ih _

end FileTree
end Transplant
