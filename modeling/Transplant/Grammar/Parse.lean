import Transplant.Grammar.Repair

/-!
# Reading a source

`Grammar.parse` reads a whole source as a tree, or gives the line where it goes wrong.
`Grammar.recover` reads a source in spite of its errors.

What stands before the statement with the first error is settled; ways around errors are looked for
in the rest.
-/

namespace Transplant
namespace Grammar

open Utf8 (Glyph)

/-- The line of the last character that is no blank. -/
def lastLine (line seen : Nat) : List Glyph → Nat
  | [] => seen
  | g :: rest =>
    if g.char == '\n' then lastLine (line + 1) seen rest
    else if isBlank g.char then lastLine line seen rest
    else lastLine line line rest

/-- The statements that a failed attempt has found one after the other, last first, and the place
behind them. -/
def settled (memory : Memory Rule) : Nat → List Node → Cursor → List Node × Cursor
  | 0, done, c => (done, c)
  | fuel + 1, done, c =>
    match statementAt? memory c.offset memory.reach.offset with
    | some f => settled memory fuel (f.done ++ done) f.here
    | none => (done, c)

/-- The best way to read a source, if it has an error. -/
def firstCourse? (lang : Language) (source : List Glyph) : Option Course :=
  let found := attempt lang source
  if found.tree.isSome then none else course? lang source found

/-- The line on which a source goes wrong: that of the first error of the best way to read it. -/
def errorLine (lang : Language) (source : List Glyph) (failed : Attempt) : Nat :=
  let rest := (settled failed.memory source.length [] (beginning source)).2
  match (firstCourse? lang rest.rest).bind (·.line) with
  | some line => rest.line - 1 + line
  | none => min failed.memory.reach.line (lastLine 1 1 source)

/-- The tree of a source, or the line where it goes wrong. -/
def parse (lang : Language) (source : List Glyph) : Except Nat Node :=
  let found := attempt lang source
  match found.tree with
  | some tree => .ok tree
  | none => .error (errorLine lang source found)

/-- Reads statements as far as they go, skipping a glyph wherever none begins. -/
def scatter (lang : Language) (fuel : Nat) : Nat → Frame → Memory Rule → List Node
  | 0, f, _ => f.done
  | steps + 1, f, memory =>
    let f := f.skip
    match f.here.rest with
    | [] => f.done
    | g :: rest =>
      match Peg.run (rules lang) fuel (rule (.statement false)) f memory with
      | (some next, memory) =>
        if next.here.offset = f.here.offset then
          scatter lang fuel steps { f with here := f.here.past g rest } memory
        else scatter lang fuel steps next memory
      | (none, memory) => scatter lang fuel steps { f with here := f.here.past g rest } memory

/-- The statements that can be read in a source with errors: those of the best way to read it, with
the ones that it gives up behind the others. Where that takes too long, all that belongs to no
statement is left out. -/
def salvage (lang : Language) (source : List Glyph) : List Node :=
  match firstCourse? lang source with
  | some c => ((attempt lang c.source).tree.map (·.children)).getD [] ++ c.given
  | none =>
    (scatter lang (fuelFor source.length) (source.length + 1) ⟨beginning source, [], none⟩
      (.start (widthOf source))).reverse

/-- The tree of a source with errors, as far as it can be read. -/
def recover (lang : Language) (source : List Glyph) : Node :=
  let found := attempt lang source
  match found.tree with
  | some tree => tree
  | none =>
    let (done, rest) := settled found.memory source.length [] (beginning source)
    root source ((salvage lang rest.rest).reverse ++ done) (beginning source)

end Grammar
end Transplant
