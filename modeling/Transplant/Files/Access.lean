import Transplant.Files.Tree
import Transplant.Path.Pure
import Transplant.Text.Lines

/-!
# Reading and writing

A `Disk` is a file tree with a place in it that relative paths start from. Paths are followed name by
name: a name leads on only from a directory, and `..` leads back.

* `Disk.at?`: what a path leads to
* `Disk.readText`: the text of a file, with line ends unified
* `Disk.write`: writes a file, making the directories above it
-/

namespace Transplant

/-- Why a file or directory cannot be used. -/
inductive FileError where
  | notFound (path : String)
  | exists (path : String)
  | notDirectory (path : String)
  | isDirectory (path : String)
  /-- A finished file cannot take the place of a directory. -/
  | inTheWay (temporary path : String)
  /-- Any other trouble, in the words of the system. -/
  | trouble (words : String)
deriving DecidableEq, Repr

/-- The wording of a file error. -/
def FileError.message : FileError → String
  | .notFound path => "[Errno 2] No such file or directory: " ++ Text.quoted path
  | .exists path => "[Errno 17] File exists: " ++ Text.quoted path
  | .notDirectory path => "[Errno 20] Not a directory: " ++ Text.quoted path
  | .isDirectory path => "[Errno 21] Is a directory: " ++ Text.quoted path
  | .inTheWay temporary path =>
    "[Errno 21] Is a directory: " ++ Text.quoted temporary ++ " -> " ++ Text.quoted path
  | .trouble words => words

/-- Why the text of a file cannot be read. -/
inductive ReadError where
  | file (cause : FileError)
  | undecodable (fault : Utf8.Fault)
deriving DecidableEq, Repr

/-- The wording of a read error. -/
def ReadError.message : ReadError → String
  | .file e => e.message
  | .undecodable f => f.message

/-- Whether there is no such file. -/
def ReadError.isMissing : ReadError → Bool
  | .file (.notFound _) => true
  | _ => false

/-- A file tree with the place that relative paths start from. -/
structure Disk where
  top : FileTree
  here : List String := []
deriving BEq, Repr, Inhabited

namespace Disk

/-- The place that some names lead to from a place, given last name first. The last name need not
exist. Above the top there is only the top. -/
def follow (t : FileTree) (path : String) (done : List String) :
    List String → Except FileError (List String)
  | [] => .ok done.reverse
  | name :: rest =>
    match t.get? done.reverse with
    | none => .error (.notFound path)
    | some (.file _) => .error (.notDirectory path)
    | some (.directory _) =>
      follow t path (if name = ".." then done.tail else name :: done) rest

/-- The place that a path leads to. -/
def resolve (d : Disk) (p : Path) : Except FileError (List String) :=
  follow d.top p.toString (if p.root = "" then d.here.reverse else []) p.parts

/-- What a path leads to. -/
def at? (d : Disk) (p : Path) : Except FileError FileTree := do
  let place ← d.resolve p
  match d.top.get? place with
  | some x => return x
  | none => throw (.notFound p.toString)

/-- Whether a path leads to a directory. -/
def isDirectoryAt (d : Disk) (p : Path) : Bool :=
  match d.at? p with
  | .ok x => x.isDirectory
  | .error _ => false

/-- The bytes of a file. -/
def readBytes (d : Disk) (p : Path) : Except FileError Bytes := do
  match ← d.at? p with
  | .file content => return content
  | .directory _ => throw (.isDirectory p.toString)

/-- The text of a file, with line ends unified. -/
def readText (d : Disk) (p : Path) : Except ReadError String := do
  let bytes ← (d.readBytes p).mapError .file
  let text ← (Utf8.decode bytes).mapError .undecodable
  return Text.unified text

/-- The disk with something at a place. -/
def put (d : Disk) (place : List String) (x : FileTree) : Disk :=
  { d with top := d.top.put place x }

/-- Makes one directory; what is above it has to be there. -/
def makeDirectory (d : Disk) (p : Path) : Except FileError Disk := do
  let place ← d.resolve p
  match d.top.get? place with
  | some _ => throw (.exists p.toString)
  | none => return d.put place FileTree.empty

/-- Makes one directory, unless it is there. -/
def ensureDirectory (d : Disk) (p : Path) : Except FileError Disk :=
  match d.makeDirectory p with
  | .ok d => .ok d
  | .error e => if d.isDirectoryAt p then .ok d else .error e

/-- Makes the directory whose names are given, last first, and those above it. -/
def ensureDirectories (d : Disk) (root : String) : List String → Except FileError Disk
  | [] => .ok d
  | last :: above =>
    let p : Path := ⟨root, (last :: above).reverse⟩
    match d.ensureDirectory p with
    | .error (.notFound _) => do
      let d ← d.ensureDirectories root above
      d.ensureDirectory p
    | result => result

/-- The path of the file that is written first and then takes the place of the one meant; the
letters that make its name unlike all others are shown as `X`. -/
def temporaryFor (p : Path) : String :=
  let above := Lexical.normalize p.parent.toString
  let name := "." ++ p.name ++ ".XXXXXXXX.tmp"
  if above = "." then name else above ++ "/" ++ name

/-- Writes a file, making the directories above it. Directories stay made if the file cannot be
written. -/
def write (d : Disk) (p : Path) (text : String) : Disk × Except FileError Unit :=
  match d.ensureDirectories p.root p.parent.parts.reverse with
  | .error e => (d, .error e)
  | .ok d =>
    match d.resolve p with
    | .error e => (d, .error e)
    | .ok place =>
      match d.top.get? place with
      | some (.directory _) => (d, .error (.inTheWay (temporaryFor p) p.toString))
      | _ => (d.put place (.file (Utf8.encode text)), .ok ())

end Disk
end Transplant
