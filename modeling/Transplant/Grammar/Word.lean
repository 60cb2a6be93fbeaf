import Transplant.Grammar.Language
import Transplant.Text.Basic
import Transplant.Text.Utf8

/-!
# Characters, names and words

Which characters are blanks, which can stand in a name, and which words cannot be used as a name.

The untyped language reserves its words wherever a plain name is looked for. The typed language
reserves none: a word is taken for itself only at a place where the grammar has a use for it, and is
a name like any other everywhere else. `Spot` lists the places where names stand, and `Spot.barred`
the words that are no names there.
-/

namespace Transplant
namespace Grammar

open Utf8 (Glyph)

/-! ## Characters -/

/-- The backquote, which opens and closes a template. -/
def backquoteChar : Char := Char.ofNat 0x60

/-- The opening brace. -/
def openBraceChar : Char := Char.ofNat 0x7B

/-- The apostrophe. -/
def apostropheChar : Char := Char.ofNat 0x27

/-- The closing brace. -/
def closeBraceChar : Char := Char.ofNat 0x7D

/-- Blanks between lexemes, line breaks included. -/
def isBlank (c : Char) : Bool :=
  let n := c.toNat
  n == 0x20 || (0x09 ≤ n && n ≤ 0x0D) || n == 0xA0 || n == 0x1680 || (0x2000 ≤ n && n ≤ 0x200B) ||
    n == 0x2028 || n == 0x2029 || n == 0x202F || n == 0x205F || n == 0x2060 || n == 0x3000 ||
    n == 0xFEFF

/-- Blanks at which a line can be broken; fixed and invisible ones are none of them. -/
def isSpace (c : Char) : Bool :=
  let n := c.toNat
  isBlank c && n != 0xA0 && n != 0x2007 && n != 0x200B && n != 0x202F && n != 0x2060 && n != 0xFEFF

/-- Blanks of ASCII, line breaks included. -/
def isAsciiBlank (c : Char) : Bool := c == ' ' || (0x09 ≤ c.toNat && c.toNat ≤ 0x0D)

/-- Characters that end a line comment. -/
def endsLine (c : Char) : Bool :=
  c == '\n' || c == '\r' || c.toNat == 0x2028 || c.toNat == 0x2029

/-- Line breaks that can end a statement. -/
def isBreak (c : Char) : Bool := c == '\n' || c.toNat == 0x2028 || c.toNat == 0x2029

/-- Characters that a name can hold: all but the ASCII marks, controls, blanks and stray bytes. -/
def isNamePart (c : Char) : Bool :=
  if c.toNat < 0x7F then Text.isLetter c || Text.isDigit c || c == '_' || c == '$'
  else !isBlank c && c != Utf8.stray

/-- Characters that a name can begin with. -/
def isNameStart (c : Char) : Bool := isNamePart c && !Text.isDigit c

/-- Whether a hexadecimal digit. -/
def isHex (c : Char) : Bool := (Text.hexValue? c).isSome

/-! ## Looking ahead -/

/-- The characters at the head that satisfy `p`. -/
def run (p : Char → Bool) : List Glyph → List Char
  | [] => []
  | g :: rest => if p g.char then g.char :: run p rest else []

/-- Whether the input begins with these characters. -/
def leads : List Char → List Glyph → Bool
  | [], _ => true
  | _ :: _, [] => false
  | c :: cs, g :: gs => c == g.char && leads cs gs

/-- `some n` unless `n` is zero. -/
def positive (n : Nat) : Option Nat := if n = 0 then none else some n

/-! ## Names -/

/-- The length of the digits of an escape behind its `u`, with braces around them or four of them
without; `0` if there are none. -/
def codePointLength (rest : List Glyph) : Nat :=
  if leads [openBraceChar] rest then
    let n := (run isHex (rest.drop 1)).length
    if n ≠ 0 && leads [closeBraceChar] (rest.drop (n + 1)) then n + 2 else 0
  else if (run isHex (rest.take 4)).length == 4 then 4 else 0

/-- The length of a character escape at the head, as it may stand in a name, `0` if there is
none. -/
def nameEscapeLength : List Glyph → Nat
  | b :: u :: rest =>
    if b.char == '\\' && u.char == 'u' then
      match codePointLength rest with
      | 0 => 0
      | n => n + 2
    else 0
  | _ => 0

/-- The characters at the head that a name can go on with, where `pending` more belong to an
escape. -/
def nameRest (pending : Nat) : List Glyph → List Char
  | [] => []
  | g :: rest =>
    if 0 < pending then g.char :: nameRest (pending - 1) rest
    else if isNamePart g.char then g.char :: nameRest 0 rest
    else match nameEscapeLength (g :: rest) with
      | 0 => []
      | n + 1 => g.char :: nameRest n rest

/-- The name at the head, empty if there is none. -/
def nameAt : List Glyph → List Char
  | [] => []
  | g :: rest =>
    if isNameStart g.char || nameEscapeLength (g :: rest) ≠ 0 then nameRest 0 (g :: rest) else []

/-- The length of the hyphenated name at the head, as tags and attributes may have; `0` if there is
none. -/
def hyphenatedLength : List Glyph → Nat
  | [] => 0
  | g :: rest =>
    let isPart := fun c : Char => Text.isLetter c || Text.isDigit c || c == '_' || c == '$'
    if isPart g.char && !Text.isDigit g.char then
      let n := (run isPart rest).length
      if leads ['-'] (rest.drop n) then
        n + 1 + (run (fun c => isPart c || c == '-') (rest.drop n)).length
      else 0
    else 0

/-- The length of the two words at the head of the input, if the line breaks behind them; the last
line break of the blanks there is the end. -/
def wordsBeforeBreak? (first second : List Char) (input : List Glyph) : Option Nat :=
  let gap := (run isAsciiBlank (input.drop first.length)).length
  let start := first.length + gap
  let tail := (run isAsciiBlank (input.drop (start + second.length))).reverse
  if nameAt input == first && 0 < gap && nameAt (input.drop start) == second &&
      tail.contains '\n' then
    some (start + second.length + (tail.dropWhile (· != '\n')).length)
  else none

/-! ## Words that are no names -/

/-- The words that the untyped language reserves. -/
def reservedWords : List String :=
  ["break", "case", "catch", "class", "const", "continue", "debugger", "default", "delete", "do",
    "else", "export", "extends", "false", "finally", "for", "function", "if", "import", "in",
    "instanceof", "new", "null", "return", "super", "switch", "this", "throw", "true", "try",
    "typeof", "var", "void", "while", "with"]

/-- The words that begin an expression of their own. -/
def leadingWords : List String :=
  ["await", "class", "delete", "false", "function", "import", "null", "super", "this", "true",
    "typeof", "undefined", "void", "yield"]

/-- The words that begin a statement of their own. -/
def statementWords : List String :=
  ["abstract", "break", "const", "continue", "debugger", "do", "enum", "for", "if", "interface",
    "return", "switch", "throw", "try", "var", "while", "with"]

/-- The words that have a meaning at the beginning of a type. -/
def typeWords : List String :=
  ["abstract", "any", "boolean", "const", "false", "import", "infer", "keyof", "never", "new",
    "null", "number", "object", "readonly", "string", "symbol", "this", "true", "typeof",
    "undefined", "unique", "unknown", "void"]

/-- The operators of the typed language that are words. -/
def operatorWords : List String := ["as", "in", "instanceof", "satisfies"]

/-- The places where a name can stand. -/
inductive Spot where
  /-- Where an expression can begin. -/
  | operand
  /-- Where nothing but a name can stand. -/
  | binder
  /-- Behind a word that can be a name itself, so that an operator may follow. -/
  | afterName
  /-- Behind a word that can be a name itself, in the header of a loop. -/
  | inHeader
  /-- Behind `const`. -/
  | afterConst
  /-- Behind `class`. -/
  | className
  /-- Where a type can begin. -/
  | type
  /-- Where the type of a result can begin. -/
  | result
  /-- Behind a dot and where a key can stand. -/
  | key
deriving DecidableEq, Repr

/-- The words that are no names at a spot. -/
def Spot.barred : Language → Spot → List (List Char)
  | .javascript, .operand =>
    (reservedWords.filter (· != "export") ++ leadingWords).map String.toList
  | .tsx, .operand => ("using" :: leadingWords).map String.toList
  | _, .key => []
  | .javascript, .inHeader => ("of" :: reservedWords).map String.toList
  | .javascript, _ => reservedWords.map String.toList
  | .tsx, .binder => []
  | .tsx, .afterName => operatorWords.map String.toList
  | .tsx, .inHeader => ("of" :: operatorWords).map String.toList
  | .tsx, .afterConst => ["enum".toList]
  | .tsx, .className => ["extends".toList, "implements".toList]
  | .tsx, .type => typeWords.map String.toList
  | .tsx, .result => ("asserts" :: typeWords).map String.toList

end Grammar
end Transplant
