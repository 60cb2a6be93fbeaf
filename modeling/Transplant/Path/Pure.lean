import Transplant.Path.Lexical
import Transplant.Text.Quoted

/-!
# Paths as values

A `Path` has its root, if any, and its components. Empty and `.` components disappear when a path
is read; `..` is kept, since what it leads to is known to the file system only.
-/

namespace Transplant

/-- A path with slashes: `root` is empty, `/` or `//`. -/
structure Path where
  root : String
  parts : List String
deriving DecidableEq, Repr, Inhabited

/-- Why a path operation has no result. -/
inductive PathError where
  /-- The path has no last component that could be replaced. `concrete` tells whether the path is
  one of the file system or only written. -/
  | emptyName (concrete : Bool) (path : String)
  /-- The text is no single component. -/
  | invalidName (name : String)
  | notBelow (path start : String)
deriving DecidableEq, Repr

/-- The wording of a path operation without a result. -/
def PathError.message : PathError → String
  | .emptyName concrete path =>
    (if concrete then "PosixPath(" else "PurePosixPath(") ++ Text.quoted path ++
      ") has an empty name"
  | .invalidName name => "Invalid name " ++ Text.quoted name
  | .notBelow path start =>
    Text.quoted path ++ " is not in the subpath of " ++ Text.quoted start ++
      " OR one path is relative and the other is absolute."

namespace Path

/-- The empty path, which is the current directory. -/
def here : Path := ⟨"", []⟩

/-- Reads a path. -/
def ofString (s : String) : Path :=
  ⟨Lexical.rootOf s, (Text.splitAll '/' s).filter fun p => p ≠ "" && p ≠ "."⟩

/-- The spelling of a path. -/
def toString (p : Path) : String :=
  if p.root = "" && p.parts = [] then "." else p.root ++ Text.join "/" p.parts

/-- `q` as seen from `p`; an absolute `q` replaces `p`. -/
def append (p q : Path) : Path :=
  if q.root = "" then ⟨p.root, p.parts ++ q.parts⟩ else q

instance : Append Path := ⟨append⟩

/-- `s` as seen from `p`. -/
def child (p : Path) (s : String) : Path := p ++ ofString s

/-- The last component, empty if there is none. -/
def name (p : Path) : String := p.parts.getLast?.getD ""

/-- The path without its last component. -/
def parent (p : Path) : Path := ⟨p.root, p.parts.dropLast⟩

/-- The length of a name in front of its last dot, if that dot is neither first nor last. -/
def dotAt? (name : String) : Option Nat :=
  let l := name.toList
  let after := (l.reverse.takeWhile (· ≠ '.')).length
  if after < l.length && 0 < after && after + 1 < l.length then some (l.length - after - 1)
  else none

/-- The ending of the last component, with its dot. -/
def suffix (p : Path) : String :=
  match dotAt? p.name with
  | some i => Text.drop p.name i
  | none => ""

/-- The last component without its ending. -/
def stem (p : Path) : String :=
  match dotAt? p.name with
  | some i => String.ofList (p.name.toList.take i)
  | none => p.name

/-- The path with another last component. -/
def withName (p : Path) (name : String) : Except PathError Path :=
  if p.name = "" then .error (.emptyName false p.toString)
  else
    let q := ofString name
    if name = "" || Text.endsWith name "/" || q.root ≠ "" || q.parts.length ≠ 1 then
      .error (.invalidName name)
    else .ok ⟨p.root, p.parts.dropLast ++ [name]⟩

/-- The path without the ending of its last component. -/
def withoutSuffix (concrete : Bool) (p : Path) : Except PathError Path :=
  if p.name = "" then .error (.emptyName concrete p.toString)
  else .ok ⟨p.root, p.parts.dropLast ++ [p.stem]⟩

/-- The way down from `start` to `p`. -/
def relativeTo (p start : Path) : Except PathError Path :=
  if start.root = "" && start.parts = [] then
    if p.root = "" then .ok p else .error (.notBelow p.toString "")
  else if p.root = start.root && start.parts.isPrefixOf p.parts then
    .ok ⟨"", p.parts.drop start.parts.length⟩
  else .error (.notBelow p.toString start.toString)

end Path
end Transplant
