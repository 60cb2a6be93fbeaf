import Transplant.Grammar.Reading

/-!
# What stands before an error

Where a source cannot be read any further, what stands before that place has been read in part:
whole statements and elements, whole brackets, chains of members and calls, opening tags, and single
pieces in between. These are the parts that can be given up again, from the last one backwards.
`partsBefore` finds them, with statements and elements taken from what a failed attempt remembers.
-/

namespace Transplant
namespace Grammar

open Utf8 (Glyph)

/-! ## Pieces -/

/-- A piece of a source, by where it begins and ends. -/
structure Piece where
  chars : List Char
  start : Nat
  stop : Nat
  line : Nat
  lastLine : Nat
deriving Repr

/-- The length of the longest operator at the head of the input. -/
def longMarkLength? (input : List Glyph) : Option Nat :=
  positive (((Lexeme.longMarks.filter (leads · input)).map (·.length)).foldl max 0)

/-- The length of the piece at the head of the input: a quoted text if these count as one piece, a
name, a number, an operator, or else one glyph. -/
def pieceLength (quoted : Bool) (input : List Glyph) : Nat :=
  let text := if quoted then stringAt input else none
  (text <|> positive (nameAt input).length <|> numberAt input <|> longMarkLength? input).getD 1

/-- The piece behind a gap, and the place after it. -/
def piece? (quoted : Bool) (c : Cursor) : Option (Piece × Cursor) :=
  let c := (skipGap .blank c [] c.rest).1
  if c.rest.isEmpty then none
  else
    let length := pieceLength quoted c.rest
    let stop := Cursor.forward length c
    some (⟨(c.rest.take length).map (·.char), c.offset, stop.offset, c.line, stop.line⟩, stop)

/-- The pieces from a place on, at most so many. -/
def pieces (quoted : Bool) : Nat → Cursor → List Piece
  | 0, _ => []
  | fuel + 1, c =>
    match piece? quoted c with
    | none => []
    | some (p, stop) => p :: pieces quoted fuel stop

/-! ## Parts -/

/-- What a part is, as far as the parts around it depend on it. -/
inductive Shape where
  /-- An opening bracket. -/
  | opening (closing : Char)
  /-- A closing bracket. -/
  | closing (c : Char)
  /-- A word or mark that is no name. -/
  | sign (chars : List Char)
  | name (chars : List Char)
  /-- A text in quotes. -/
  | quoted
  /-- Several pieces that are a value together. -/
  | value
  /-- The elements of a list from the first comma on. -/
  | elements
  /-- Whole statements. -/
  | statements
  /-- The opening tag of an element. -/
  | tag
  /-- Text between tags. -/
  | text
deriving DecidableEq, Repr

/-- A part of what has been read. -/
structure Part where
  shape : Shape
  /-- Where the piece before it ends. -/
  after : Nat
  start : Nat
  line : Nat
  /-- How many trees it has. -/
  trees : Nat
deriving Repr

/-- The shape of a single piece. -/
def shapeOf (chars : List Char) : Shape :=
  match chars with
  | ['('] => .opening ')'
  | ['['] => .opening ']'
  | [')'] => .closing ')'
  | [']'] => .closing ']'
  | c :: _ =>
    if chars = [openBraceChar] then .opening closeBraceChar
    else if chars = [closeBraceChar] then .closing closeBraceChar
    else if c == '"' || c == apostropheChar then .quoted
    else if isNameStart c && !(reservedWords.map String.toList).contains chars then .name chars
    else .sign chars
  | [] => .sign []

namespace Part

/-- Whether a part is the word or mark `s`. -/
def isSign (p : Part) (s : String) : Bool := p.shape = .sign s.toList

/-- Whether a part is something that can be called and that has members. -/
def isOperand (p : Part) : Bool :=
  match p.shape with
  | .name _ | .value => true
  | _ => false

/-- Whether a dot stands in front of a member. -/
def isDot (p : Part) : Bool := p.isSign "." || p.isSign "?."

/-- A part that has become a value. -/
def toValue (p : Part) : Part := { p with shape := .value, trees := 1 }

/-- A value in brackets joins what stands before it: it is a call or an element of that, unless that
is the name in the head of a function, or the body of an arrow function. -/
def attach (c : Char) (group : Part) (before : List Part) : List Part :=
  match before with
  | arrow :: parameters :: head =>
    if arrow.isSign "=>" then parameters.toValue :: head
    else if c ≠ closeBraceChar && arrow.isOperand && !parameters.isSign "function" then
      arrow.toValue :: parameters :: head
    else group :: before
  | [called] => if c ≠ closeBraceChar && called.isOperand then [called.toValue] else group :: before
  | [] => [group]

/-- A bracket is closed: all since it was opened becomes one part. -/
def close (c : Char) (closed : Part) (parts : List Part) : List Part :=
  match parts.dropWhile (·.shape ≠ .opening c) with
  | [] => closed :: parts
  | opened :: before => attach c opened.toValue before

/-- A tag is closed: all since it was opened becomes one part. -/
def closeTag (closed : Part) (parts : List Part) : List Part :=
  let inside := parts.takeWhile fun p => !p.isSign "<"
  match inside.getLast?, parts.drop inside.length with
  | some first, opened :: before =>
    if first.isOperand && inside.all (fun p => !(p.shape matches .opening _)) then
      { opened with shape := .tag, trees := 1 } :: before
    else closed :: parts
  | _, _ => closed :: parts

/-- Whether text between tags may stand behind a part. -/
def isMarkup (p : Part) : Bool := p.shape = .tag || p.shape = .text

/-- The parts with one more piece outside of markup, last first. -/
def pushCode (p : Part) (parts : List Part) : List Part :=
  match p.shape, parts with
  | .closing c, _ => close c p parts
  | .sign ['>'], _ => closeTag p parts
  | .name _, dot :: object :: before =>
    if dot.isDot && object.isOperand then object.toValue :: before else p :: parts
  | .quoted, word :: before =>
    if word.shape = .name "from".toList then { word with shape := .value, trees := 2 } :: before
    else p :: parts
  | .sign [','], element :: comma :: first :: before =>
    if comma.isSign "," && element.shape ≠ .elements then
      if first.shape = .elements then
        p :: { first with trees := first.trees + 2 } :: before
      else p :: { comma with shape := .elements, trees := 2 } :: first :: before
    else p :: parts
  | _, _ => p :: parts

/-- The parts with one more piece, last first. -/
def push (p : Part) (parts : List Part) : List Part :=
  match parts with
  | top :: _ =>
    if top.isMarkup && !p.isSign "<" && p.shape ≠ .opening closeBraceChar then
      if top.shape = .text then parts else { p with shape := .text } :: parts
    else pushCode p parts
  | [] => [p]

/-- The parts with some statements read. -/
def pushStatements (after : Nat) (done : List Node) (parts : List Part) : List Part :=
  let done := done.filter (·.kind != .comment)
  match done.getLast? with
  | none => parts
  | some first =>
    match parts with
    | top :: before =>
      if top.shape = .statements then { top with trees := top.trees + done.length } :: before
      else ⟨.statements, after, first.start, first.line, done.length⟩ :: parts
    | [] => [⟨.statements, after, first.start, first.line, done.length⟩]

end Part

/-- What a rule was found to read from a place on, if that ends before an offset. -/
def foundAt? (memory : Memory Rule) (r : Rule) (start stop : Nat) : Option Frame :=
  (memory.known? r start).join.filter fun f => start < f.here.offset && f.here.offset ≤ stop

/-- The element that was found to begin at a place or behind the blanks there, and to end before an
offset. -/
def elementAt? (memory : Memory Rule) (c : Cursor) (stop : Nat) : Option Node :=
  let next := (skipGap .blank c [] c.rest).1
  let found := foundAt? memory .element c.offset stop <|> foundAt? memory .element next.offset stop
  found.bind (·.done.head?)

/-- The statement that was found to begin at a place and to end before an offset. -/
def statementAt? (memory : Memory Rule) (start stop : Nat) : Option Frame :=
  foundAt? memory (.statement false) start stop

/-- The parts from a place up to an offset, last first, in front of those before them. -/
def partsFrom (memory : Memory Rule) (stop : Nat) : Nat → Cursor → List Part → List Part
  | 0, _, parts => parts
  | fuel + 1, c, parts =>
    match statementAt? memory c.offset stop, elementAt? memory c stop with
    | some f, _ => partsFrom memory stop fuel f.here (Part.pushStatements c.offset f.done parts)
    | none, some element =>
      partsFrom memory stop fuel (Cursor.walkTo element.stop c.rest.length c)
        (⟨.value, c.offset, element.start, element.line, 1⟩ :: parts)
    | none, none =>
      match piece? true c with
      | none => parts
      | some (p, after) =>
        if stop < p.stop then parts
        else
          partsFrom memory stop fuel after
            (Part.push ⟨shapeOf p.chars, c.offset, p.start, p.line, 1⟩ parts)

/-- The parts of a source before an offset, last first. -/
def partsBefore (memory : Memory Rule) (source : List Glyph) (stop : Nat) : List Part :=
  partsFrom memory stop (source.length + 1) (beginning source) []

/-- The statements that were found between two offsets. -/
def statementsBetween (memory : Memory Rule) : Nat → Nat → Nat → List Node
  | 0, _, _ => []
  | fuel + 1, start, stop =>
    if stop ≤ start then []
    else
      match statementAt? memory start stop with
      | some f => f.done ++ statementsBetween memory fuel f.here.offset stop
      | none => statementsBetween memory fuel (start + 1) stop

end Grammar
end Transplant
