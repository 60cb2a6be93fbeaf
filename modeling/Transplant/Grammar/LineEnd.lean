import Transplant.Grammar.Word

/-!
# Where a statement may end without a semicolon

A statement may end at the end of the source, before a closing brace, and before a line break, if
what stands behind the break cannot go on with the line. Comments in between are looked through; the
two languages differ in whether a comment on the same line already counts, and in what can go on
with a line.

`Ending` says what the statement ends with, because an operator can only go on with a value.
-/

namespace Transplant
namespace Grammar

open Utf8 (Glyph)

/-- What a statement ends with. -/
inductive Ending where
  /-- A value, which an operator on the next line could go on with. -/
  | value
  /-- Anything else. -/
  | plain
  /-- The signature of a function, whose body may stand on the next line. -/
  | signature
deriving DecidableEq, Repr

/-- What stands behind blanks and comments. -/
inductive Beyond where
  /-- Nothing that a comment could be: a slash that begins none. -/
  | slash
  /-- A block comment without a line break, and what stands right behind it. -/
  | sameLine (rest : List Glyph)
  /-- What stands behind a line break or at the end. -/
  | past (rest : List Glyph)

/-- What a scan is inside of: nothing, a line comment, or a block comment that has or has not
broken the line. -/
inductive Within where
  | nothing
  | lineComment
  | blockComment (broken : Bool)

/-- Looks through blanks and comments. `stopAtBlock` says whether the scan stops behind a block
comment, unless another slash follows it. -/
def beyond (stopAtBlock : Bool) : Within → List Glyph → Beyond
  | .nothing, [] => .past []
  | .nothing, [g] => if isSpace g.char then .past [] else if g.char == '/' then .slash else .past [g]
  | .nothing, g :: h :: rest =>
    if isSpace g.char then beyond stopAtBlock .nothing (h :: rest)
    else if g.char == '/' then
      if h.char == '/' then beyond stopAtBlock .lineComment rest
      else if h.char == '*' then beyond stopAtBlock (.blockComment false) rest
      else .slash
    else .past (g :: h :: rest)
  | .lineComment, [] => .past []
  | .lineComment, g :: rest =>
    if isBreak g.char then beyond stopAtBlock .nothing rest
    else beyond stopAtBlock .lineComment rest
  | .blockComment _, [] => .past []
  | .blockComment _, [_] => .past []
  | .blockComment broken, g :: h :: rest =>
    if g.char == '*' && h.char == '/' then
      if stopAtBlock && !leads ['/'] rest then if broken then .past rest else .sameLine rest
      else beyond stopAtBlock .nothing rest
    else beyond stopAtBlock (.blockComment (broken || isBreak g.char)) (h :: rest)

/-- Whether the input can begin with the operator `in` or `instanceof`, as far as a scan by letters
can tell. -/
def leadsOperatorWord (input : List Glyph) : Bool :=
  let next := fun n : Nat => (input.drop n).head?.map (·.char)
  leads ['i', 'n'] input &&
    (!((next 2).map Text.isLetter).getD false ||
      leads "instanceof".toList input && !((next 10).map Text.isLetter).getD false)

/-- The characters that go on with the line before in both languages. -/
def joiningChars : List Char :=
  [backquoteChar, ',', ':', ';', '*', '%', '>', '<', '=', '?', '^', '|', '&', '/']

/-- Whether the input can begin a statement on a new line. -/
def beginsStatement (lang : Language) (ending : Ending) : List Glyph → Bool
  | [] => true
  | g :: rest =>
    let c := g.char
    let next := rest.head?.map (·.char)
    if joiningChars.contains c then false
    else if c == '(' || c == '[' then lang == .tsx && ending != .value
    else if c == '.' then lang == .javascript && (next.map Text.isDigit).getD false
    else if c == openBraceChar then ending != .signature
    else if c == '+' then next == some '+'
    else if c == '-' then next == some '-'
    else if c == '!' then next != some '='
    else !leadsOperatorWord (g :: rest)

/-- What one step of the search for an end finds. -/
inductive Verdict where
  | ends
  | goesOn
  /-- Undecided: the search goes on with this input. -/
  | ask (rest : List Glyph)

/-- The verdict on an input that begins with no comment. -/
def verdict (ending : Ending) : List Glyph → Verdict
  | [] => .goesOn
  | g :: rest =>
    if g.char == closeBraceChar then .ends
    else if isBreak g.char then
      match beyond false .nothing rest with
      | .past after => if beginsStatement .javascript ending after then .ends else .goesOn
      | _ => .goesOn
    else if isSpace g.char then .ask rest
    else .goesOn

/-- Whether a statement of the untyped language may end before this input. A comment that runs to
the next line already ends it, if it ends with no value. The first argument bounds the number of
blanks and comments. -/
def endsUntyped (ending : Ending) : Nat → List Glyph → Bool
  | 0, _ => false
  | _ + 1, [] => true
  | fuel + 1, g :: rest =>
    let found :=
      if g.char == '/' then
        match beyond true .nothing (g :: rest) with
        | .slash => .goesOn
        | .sameLine after => verdict ending after
        | .past after =>
          if ending != .value && !leads [','] after && !leads ['='] after then .ends
          else verdict ending after
      else verdict ending (g :: rest)
    match found with
    | .ends => true
    | .goesOn => false
    | .ask after => endsUntyped ending fuel after

/-- Whether a statement of the typed language may end before this input. A comment on the same line
never ends it, and a brace that a type follows closes a pattern. -/
def endsTyped (ending : Ending) : List Glyph → Bool
  | [] => true
  | g :: rest =>
    if g.char == closeBraceChar then
      ending == .value || !leads [':'] (rest.dropWhile (isSpace ·.char))
    else if g.char == '\n' then
      match beyond false .nothing rest with
      | .past after => beginsStatement .tsx ending after
      | _ => false
    else if isSpace g.char then endsTyped ending rest
    else false

/-- Whether a statement may end before this input without a semicolon. The number bounds the blanks
and comments that are looked through. -/
def endsStatement (lang : Language) (ending : Ending) (fuel : Nat) (input : List Glyph) : Bool :=
  match lang with
  | .javascript => endsUntyped ending fuel input
  | .tsx => endsTyped ending input

end Grammar
end Transplant
