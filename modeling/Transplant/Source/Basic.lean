import Transplant.Grammar.Parse
import Transplant.Path.Pure
import Transplant.Source.Edit

/-!
# Sources

A `Source` is a file that has been read: its bytes with their tree. Trees are never changed; an edit
makes new bytes, which are read again.
-/

namespace Transplant

/-- The endings of files in the typed language. -/
def typedEndings : List String := [".tsx", ".ts"]

/-- The language of a file, after its ending. -/
def Language.ofPath (path : String) : Language :=
  if typedEndings.contains (Text.lower (Path.ofString path).suffix) then .tsx else .javascript

/-- A file that has been read. -/
structure Source where
  bytes : Bytes
  root : Node
  language : Language
  path : String

/-- The place where a file goes wrong. -/
structure SyntaxError where
  path : String
  line : Nat
deriving DecidableEq, Repr

/-- The wording of an error in a file. -/
def SyntaxError.message (e : SyntaxError) : String := s!"Syntax error in {e.path} at line {e.line}"

/-- Why edits cannot be made. -/
inductive EditError where
  /-- The edited source cannot be read. -/
  | broken (cause : SyntaxError)
  | overlap (path : String) (start : Int)
deriving DecidableEq, Repr

/-- The wording of an error in edits. -/
def EditError.message : EditError → String
  | .broken cause => cause.message
  | .overlap path start => s!"Overlapping edits at byte {start} in {path}"

namespace Source

/-- Reads the bytes of a file. -/
def ofBytes (bytes : Bytes) (path : String) (language : Language) : Except SyntaxError Source :=
  match Grammar.parse language (Utf8.glyphs bytes) with
  | .ok root => .ok ⟨bytes, root, language, path⟩
  | .error line => .error ⟨path, line⟩

/-- Reads a text. -/
def parse (text path : String) : Except SyntaxError Source :=
  ofBytes (Utf8.encode text) path (Language.ofPath path)

/-- Reads a text, and what can be read of it if it has errors. -/
def recover (text path : String) : Source :=
  match parse text path with
  | .ok source => source
  | .error _ =>
    let bytes := Utf8.encode text
    let language := Language.ofPath path
    ⟨bytes, Grammar.recover language (Utf8.glyphs bytes), language, path⟩

/-- The text of a source. -/
def text (s : Source) : Except Utf8.Fault String := Utf8.decode s.bytes

/-- The source with the edits made, read again. -/
def apply (s : Source) (edits : List Edit) : Except EditError Source :=
  if edits.isEmpty then .ok s
  else match Edit.overlap? edits with
    | some start => .error (.overlap s.path start)
    | none => (ofBytes (Edit.splice s.bytes edits) s.path s.language).mapError .broken

end Source
end Transplant
