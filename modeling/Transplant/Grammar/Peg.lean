import Transplant.Grammar.Lexeme
import Transplant.Grammar.LineEnd
import Transplant.Tree.Node

/-!
# Parsing expressions

A grammar is data: `Peg R` is a parsing expression whose references name the rules `R` of the
grammar, and `Peg.run` is the one interpreter. Choice is ordered and repetition greedy. What makes
the result a tree are `node`, which gathers what its body reads under one parent, `wrap`, which
makes the node read last the first child of a new parent (so operators that group to the left are
read in a loop), and `role`, which labels what its body reads.

Comments may stand between any two lexemes. A comment belongs to the innermost node that has
something before and after it: `node` therefore hands the comments in front of its first lexeme to
the node around it, and a node ends with a comment only where `ends` finds the end of the statement
behind it.

What a rule reads at a place depends on the place alone. The interpreter therefore remembers the
answers of rules, so that no rule is tried twice at one place, however often the choices around it
fail. It counts down one unit of fuel per nested step, and remembers the farthest place where a
lexeme was looked for in vain, which is where a text that cannot be read goes wrong.
-/

namespace Transplant
namespace Grammar

open Utf8 (Glyph)

/-- A parsing expression over the rules `R`. -/
inductive Peg (R : Type) where
  /-- Reads nothing. -/
  | empty
  /-- A leaf of the given kind. -/
  | leaf (kind : Kind) (lexeme : Lexeme)
  /-- One after the other. -/
  | seq (first second : Peg R)
  /-- The first that succeeds. -/
  | alt (first second : Peg R)
  /-- As often as possible. -/
  | many (body : Peg R)
  | ref (rule : R)
  /-- A node whose children are what the body reads. -/
  | node (kind : Kind) (body : Peg R)
  /-- Makes the node read last the first child, in the given role, of a new node. -/
  | wrap (kind : Kind) (left : Option Role) (body : Peg R)
  /-- Labels what the body reads, comments apart. -/
  | role (role : Role) (body : Peg R)
  /-- Succeeds without reading if the body fails. -/
  | unless (body : Peg R)
  /-- Succeeds if the node read last is of one of these kinds. -/
  | lastIs (kinds : List Kind)
  /-- Succeeds if the node read last has a child in this role. -/
  | lastHas (role : Role)
  /-- Changes the kind of the node being read. -/
  | become (kind : Kind)
  /-- A place where a statement may end without a semicolon. -/
  | ends (lang : Language) (ending : Ending)

/-- A place in a source: the glyphs from there on, the byte offset and the line. -/
structure Cursor where
  rest : List Glyph
  offset : Nat
  line : Nat

namespace Cursor

/-- The place after one glyph. -/
def past (c : Cursor) (g : Glyph) (rest : List Glyph) : Cursor :=
  ⟨rest, c.offset + g.width, if g.char == '\n' then c.line + 1 else c.line⟩

/-- The place `n` glyphs further on. -/
def forward : Nat → Cursor → Cursor
  | 0, c => c
  | n + 1, c =>
    match c.rest with
    | [] => c
    | g :: rest => forward n (c.past g rest)

/-- The place at offset `stop`, at most so many glyphs further on. -/
def walkTo (stop : Nat) : Nat → Cursor → Cursor
  | 0, c => c
  | fuel + 1, c => if c.offset < stop then walkTo stop fuel (forward 1 c) else c

/-- The characters of the first glyphs that together take `width` bytes. -/
def chars (width : Nat) : List Glyph → List Char
  | [] => []
  | g :: rest => if width = 0 then [] else g.char :: chars (width - g.width) rest

/-- The text from `c` to the offset `stop`. -/
def textTo (c : Cursor) (stop : Nat) : String := String.ofList (chars (stop - c.offset) c.rest)

/-- The leaf between two places. -/
def leafTo (c : Cursor) (kind : Kind) (stop : Cursor) : Node :=
  ⟨kind, none, c.offset, stop.offset, c.line, c.textTo stop.offset, []⟩

end Cursor

/-- What a scan between two lexemes is inside of. -/
inductive Gap where
  | blank
  | lineComment (opened : Cursor)
  | blockComment (opened : Cursor)

/-- Skips blanks and comments. Returns the next place that is neither, and the comments before it,
last first. A block comment that is never closed is no comment. -/
def skipGap (gap : Gap) (here : Cursor) (found : List Node) : List Glyph → Cursor × List Node
  | [] =>
    match gap with
    | .blank => (here, found)
    | .lineComment opened => (here, opened.leafTo .comment here :: found)
    | .blockComment opened => (opened, found)
  | g :: rest =>
    match gap with
    | .blank =>
      if isBlank g.char then skipGap .blank (here.past g rest) found rest
      else if g.char == '/' then
        match rest with
        | [] => (here, found)
        | h :: more =>
          if h.char == '/' then
            skipGap (.lineComment here) ((here.past g (h :: more)).past h more) found more
          else if h.char == '*' then
            skipGap (.blockComment here) ((here.past g (h :: more)).past h more) found more
          else (here, found)
      else (here, found)
    | .lineComment opened =>
      if endsLine g.char then
        skipGap .blank (here.past g rest) (opened.leafTo .comment here :: found) rest
      else skipGap (.lineComment opened) (here.past g rest) found rest
    | .blockComment opened =>
      match rest with
      | [] => (opened, found)
      | h :: more =>
        if g.char == '*' && h.char == '/' then
          let closed := (here.past g (h :: more)).past h more
          skipGap .blank closed (opened.leafTo .comment closed :: found) more
        else skipGap (.blockComment opened) (here.past g (h :: more)) found (h :: more)

/-- What has been read of the current node: where reading goes on, the children so far, last
first, and the kind that the node has become. -/
structure Frame where
  here : Cursor
  done : List Node
  became : Option Kind

/-- A place where a lexeme was looked for in vain. -/
structure Reach where
  offset : Nat
  line : Nat

/-- The farther of two places. -/
def Reach.extend (r : Reach) (c : Cursor) : Reach :=
  if r.offset < c.offset then ⟨c.offset, c.line⟩ else r

namespace Frame

/-- The frame with the gap before the next lexeme skipped. -/
def skip (f : Frame) : Frame :=
  let (here, found) := skipGap .blank f.here f.done f.here.rest
  { f with here, done := found }

/-- The frame that goes on where another one, begun at the same place, has got to. -/
def join (f inner : Frame) : Frame :=
  ⟨inner.here, inner.done ++ f.done, inner.became <|> f.became⟩

/-- The first of the comments that follow, if one does. -/
def comment? (f : Frame) : Option Node :=
  ({ f with done := [] } : Frame).skip.done.getLast?

/-- Looks for the end of a statement that needs no semicolon. Where the statement cannot end yet but
a comment follows, the comment belongs to the statement and the search goes on behind it. -/
def ending? (lang : Language) (ending : Ending) : Nat → Frame → Option Frame
  | 0, _ => none
  | fuel + 1, f =>
    if endsStatement lang ending fuel f.here.rest then some f
    else match f.comment? with
      | none => none
      | some comment =>
        let here := Cursor.walkTo comment.stop f.here.rest.length f.here
        ending? lang ending fuel { f with here, done := comment :: f.done }

end Frame

/-- What a rule has been found to read at a place. -/
structure Finding (R : Type) where
  rule : R
  answer : Option Frame

/-- What the interpreter remembers: the farthest place reached, and by offset what rules read. -/
structure Memory (R : Type) where
  reach : Reach
  findings : Array (List (Finding R))

namespace Memory

variable {R : Type} [DecidableEq R]

/-- An empty memory for a source of this many bytes. -/
def start (size : Nat) : Memory R := ⟨⟨0, 1⟩, Array.replicate (size + 1) []⟩

/-- The memory of having come to a place. -/
def visit (m : Memory R) (c : Cursor) : Memory R := { m with reach := m.reach.extend c }

/-- What a rule is known to read at an offset. -/
def known? (m : Memory R) (r : R) (offset : Nat) : Option (Option Frame) :=
  ((m.findings[offset]?.getD []).find? (·.rule = r)).map (·.answer)

/-- The memory with another finding. -/
def record (m : Memory R) (r : R) (offset : Nat) (answer : Option Frame) : Memory R :=
  { m with findings := m.findings.modify offset (⟨r, answer⟩ :: ·) }

end Memory

/-- The outcome of a parsing expression. -/
abbrev Reply (R : Type) := Option Frame × Memory R

/-- Reads a leaf. -/
def Frame.leaf {R : Type} [DecidableEq R] (f : Frame) (kind : Kind) (lexeme : Lexeme)
    (memory : Memory R) : Reply R :=
  let f := if lexeme.isImmediate then f else f.skip
  match lexeme.scan f.here.rest with
  | none => (none, memory.visit f.here)
  | some n =>
    let stop := Cursor.forward n f.here
    (some { f with here := stop, done := f.here.leafTo kind stop :: f.done }, memory)

/-- Runs a parsing expression. -/
def Peg.run {R : Type} [DecidableEq R] (rules : R → Peg R) :
    Nat → Peg R → Frame → Memory R → Reply R
  | 0, _, f, memory => (none, memory.visit f.here)
  | fuel + 1, e, f, memory =>
    match e with
    | .empty => (some f, memory)
    | .leaf kind lexeme => f.leaf kind lexeme memory
    | .seq a b =>
      match Peg.run rules fuel a f memory with
      | (none, memory) => (none, memory)
      | (some f, memory) => Peg.run rules fuel b f memory
    | .alt a b =>
      match Peg.run rules fuel a f memory with
      | (none, memory) => Peg.run rules fuel b f memory
      | (some f, memory) => (some f, memory)
    | .many a =>
      match Peg.run rules fuel a f memory with
      | (none, memory) => (some f, memory)
      | (some next, memory) =>
        if next.here.offset = f.here.offset then (some f, memory)
        else Peg.run rules fuel (.many a) next memory
    | .ref r =>
      match memory.known? r f.here.offset with
      | some answer => (answer.map f.join, memory)
      | none =>
        match Peg.run rules fuel (rules r) ⟨f.here, [], none⟩ memory with
        | (answer, memory) => (answer.map f.join, memory.record r f.here.offset answer)
    | .node kind a =>
      let f := f.skip
      match Peg.run rules fuel a ⟨f.here, [], none⟩ memory with
      | (none, memory) => (none, memory)
      | (some inner, memory) =>
        let made : Node := ⟨inner.became.getD kind, none, f.here.offset, inner.here.offset,
          f.here.line, f.here.textTo inner.here.offset, inner.done.reverse⟩
        (some { f with here := inner.here, done := made :: f.done }, memory)
    | .wrap kind left a =>
      match f.done with
      | [] => (none, memory)
      | last :: before =>
        match Peg.run rules fuel a ⟨f.here, [], none⟩ memory with
        | (none, memory) => (none, memory)
        | (some inner, memory) =>
          let first := { last with role := left }
          let made : Node := ⟨inner.became.getD kind, none, last.start, inner.here.offset,
            last.line, last.text ++ f.here.textTo inner.here.offset, first :: inner.done.reverse⟩
          (some { f with here := inner.here, done := made :: before }, memory)
    | .role r a =>
      match Peg.run rules fuel a { f with done := [] } memory with
      | (none, memory) => (none, memory)
      | (some inner, memory) =>
        let labelled := inner.done.map fun n => if n.kind == .comment then n else n.inRole r
        (some { inner with done := labelled ++ f.done }, memory)
    | .unless a =>
      let reach := memory.reach
      match Peg.run rules fuel a f memory with
      | (none, after) => (some f, { after with reach })
      | (some _, after) => (none, { after with reach := reach.extend f.skip.here })
    | .lastIs kinds =>
      match f.done with
      | [] => (none, memory)
      | last :: _ => if kinds.contains last.kind then (some f, memory) else (none, memory)
    | .lastHas r =>
      match f.done with
      | [] => (none, memory)
      | last :: _ => if (last.child? r).isSome then (some f, memory) else (none, memory)
    | .become kind => (some { f with became := some kind }, memory)
    | .ends lang ending =>
      match f.ending? lang ending fuel with
      | some f => (some f, memory)
      | none => (none, memory.visit f.here)

end Grammar
end Transplant
