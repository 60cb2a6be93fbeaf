import Transplant.Grammar.Markup
import Transplant.Grammar.Types
import Transplant.Grammar.Statement

/-!
# Reading a source as it is

`Grammar.rules` collects the rules of a language, and `Grammar.attempt` reads a whole source by
them. An attempt that fails keeps what it has found on the way.
-/

namespace Transplant
namespace Grammar

open Utf8 (Glyph)

/-- The rules of a language. -/
def rules (lang : Language) : Rule → Peg Rule
  | .program => program
  | .statement inCase => statement lang inCase
  | .declaration ending => declaration lang ending
  | .block ending => block lang ending
  | .callSignature place => callSignature lang place
  | .classRest => classRest lang
  | .operation place binding => operation lang place binding
  | .expressions place => expressions place
  | .operand place => operand lang place
  | .primary place => primary lang place
  | .arguments => arguments
  | .object => object lang
  | .array => array
  | .propertyName => propertyName
  | .method place => method lang place
  | .template => template
  | .parenthesized => parenthesized lang
  | .pattern => pattern lang
  | .objectPattern => objectPattern
  | .arrayPattern => arrayPattern
  | .parameters => parameters lang
  | .element => element lang
  | .markupAttribute => markupAttribute lang
  | .markupExpression => markupExpression
  | .type place binding => typeOperation place binding
  | .typeOperand place => typeOperand place
  | .typePrimary place => typePrimary place
  | .typeClause place => typeClause place
  | .typeArguments => typeArguments
  | .typeParameters => typeParameters
  | .typeMembers => typeMembers

/-- Enough fuel for a source of this many glyphs: a nested step either goes down one of the
boundedly many rules between two lexemes or reads a glyph. -/
def fuelFor (glyphs : Nat) : Nat := 400 * (glyphs + 10)

/-- The beginning of a source. -/
def beginning (source : List Glyph) : Cursor := ⟨source, 0, 1⟩

/-- The number of bytes of a source. -/
def widthOf (source : List Glyph) : Nat := source.foldl (fun n g => n + g.width) 0

/-- The tree whose children are the given nodes, last first. -/
def root (source : List Glyph) (done : List Node) (stop : Cursor) : Node :=
  ⟨.program, none, 0, stop.offset, 1, (beginning source).textTo stop.offset, done.reverse⟩

/-- What comes of reading a source: its tree, or none. -/
structure Attempt where
  tree : Option Node
  memory : Memory Rule

/-- Reads a source. Without a tree, what is remembered ends with the first lexeme that cannot be
read. -/
def attempt (lang : Language) (source : List Glyph) : Attempt :=
  let start : Frame := ⟨beginning source, [], none⟩
  match Peg.run (rules lang) (fuelFor source.length) (rule .program) start
      (.start (widthOf source)) with
  | (none, memory) => ⟨none, memory⟩
  | (some f, memory) =>
    let f := f.skip
    if f.here.rest.isEmpty then ⟨some (root source f.done f.here), memory⟩
    else ⟨none, memory.visit f.here⟩

end Grammar
end Transplant
