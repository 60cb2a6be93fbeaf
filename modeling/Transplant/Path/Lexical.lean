import Transplant.Text.Basic

/-!
# Paths as written

Arithmetic on the spelling of paths with slashes, without looking at any file system.

* `Lexical.normalize`: no empty or `.` component, and `..` only in front of a relative path
* `Lexical.join`: an absolute second part replaces the first
* `Lexical.parent`: everything before the last slash
* `Lexical.relative`: the way from one directory to a path
-/

namespace Transplant
namespace Lexical

/-- The slashes that an absolute path keeps in front: two are kept as two, any other number
counts as one. -/
def rootOf (s : String) : String :=
  let slashes := (s.toList.takeWhile (· == '/')).length
  if slashes = 0 then "" else if slashes = 2 then "//" else "/"

/-- Appends a component to normalized components, given last first. -/
def step (absolute : Bool) (done : List String) (part : String) : List String :=
  if part = "" || part = "." then done
  else if part = ".." then
    match done with
    | [] => if absolute then [] else [".."]
    | last :: before => if last = ".." then ".." :: done else before
  else part :: done

/-- The components of a path in normal form. -/
def components (s : String) : List String :=
  ((Text.splitAll '/' s).foldl (step (rootOf s ≠ "")) []).reverse

/-- The path without superfluous components; the empty path is `.`. -/
def normalize (s : String) : String :=
  let path := rootOf s ++ Text.join "/" (components s)
  if path = "" then "." else path

/-- `rest` as seen from `start`. -/
def join (start rest : String) : String :=
  if Text.startsWith rest "/" then rest
  else if start = "" || Text.endsWith start "/" then start ++ rest
  else start ++ "/" ++ rest

/-- The characters up to the last slash, that slash included. -/
def throughSlash (l : List Char) : List Char := (l.reverse.dropWhile (· ≠ '/')).reverse

/-- The directory part of a path: what stands before its last slash. -/
def parent (s : String) : String :=
  let upTo := throughSlash s.toList
  if upTo.all (· == '/') then String.ofList upTo
  else String.ofList (upTo.reverse.dropWhile (· == '/')).reverse

/-- What remains of two lists after their common beginning. -/
def diverge : List String → List String → List String × List String
  | a :: as, b :: bs => if a = b then diverge as bs else (a :: as, b :: bs)
  | as, bs => (as, bs)

/-- The way from the directory `start` to `path`, both seen from the same place.  It is right for a
`start` that does not lead above this place.  The way back from above would need the names of the
directories that the place is in, which a spelling does not have. -/
def relative (path start : String) : String :=
  let (down, up) := diverge (components path) (components start)
  let way := up.map (fun _ => "..") ++ down
  if way = [] then "." else Text.join "/" way

end Lexical
end Transplant
