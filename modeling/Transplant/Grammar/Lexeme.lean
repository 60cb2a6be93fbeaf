import Transplant.Grammar.Literal

/-!
# Lexemes

The smallest pieces of a source. A lexeme is a class of character sequences; `Lexeme.scan` says how
many glyphs at the head of the input belong to it, and `none` if none do. Operators are read by the
longest match, words only as whole names, and the pieces of templates and markup text right where
they stand, without skipping blanks before them.
-/

namespace Transplant
namespace Grammar

open Utf8 (Glyph)

/-- The class of a lexeme. -/
inductive Lexeme where
  /-- A whole name with exactly these characters. -/
  | word (chars : List Char)
  /-- Two whole names at the end of a line. -/
  | wordsBeforeBreak (first second : List Char)
  /-- An operator or mark, unless a longer one stands there. -/
  | mark (chars : List Char)
  /-- Exactly these characters, whatever follows. -/
  | exact (chars : List Char)
  /-- A name that is none of the barred words. -/
  | name (barred : List (List Char))
  /-- A name of a tag or attribute: hyphenated, or none of the barred words. -/
  | tagName (barred : List (List Char))
  /-- A name behind a hash sign. -/
  | privateName
  /-- A question mark in front of a decimal fraction. -/
  | questionBeforeFraction
  | number
  | string
  /-- A quoted attribute value. -/
  | attributeString
  | regex
  | templateText
  /-- An escape in a template. -/
  | templateEscape
  | markupText
  | characterReference
  /-- The line that names an interpreter. -/
  | hashBang
  /-- A line that a comment of a web page opens or closes. -/
  | pageComment
deriving Repr

namespace Lexeme

/-- The operators of two and more characters. -/
def longMarks : List (List Char) :=
  ["=>", "==", "===", "!=", "!==", "<=", ">=", "<<", ">>", ">>>", "<<=", ">>=", ">>>=", "&&", "||",
    "??", "&&=", "||=", "??=", "?.", "++", "--", "+=", "-=", "*=", "/=", "%=", "**", "**=", "&=",
    "|=", "^=", "..."].map String.toList

/-- Whether a mark longer than `chars` stands here. -/
def outgrown (chars : List Char) (input : List Glyph) : Bool :=
  longMarks.any fun m => chars.length < m.length && chars.isPrefixOf m && leads m input

/-- Whether a fraction begins behind the first two characters. -/
def isFraction : List Glyph → Bool
  | _ :: _ :: d :: _ => Text.isDigit d.char
  | _ => false

/-- How many glyphs at the head of the input form the lexeme. -/
def scan : Lexeme → List Glyph → Option Nat
  | .word chars, input => if nameAt input == chars then some chars.length else none
  | .wordsBeforeBreak first second, input => wordsBeforeBreak? first second input
  | .mark chars, input =>
    if leads chars input && !outgrown chars input then some chars.length else none
  | .exact chars, input => if leads chars input then some chars.length else none
  | .name barred, input =>
    let chars := nameAt input
    if chars.isEmpty || barred.contains chars then none else some chars.length
  | .tagName barred, input =>
    let chars := nameAt input
    let n := hyphenatedLength input
    if chars.length < n then some n
    else if chars.isEmpty || barred.contains chars then none else some chars.length
  | .privateName, input =>
    match input with
    | [] => none
    | h :: rest =>
      if h.char == '#' then (positive (nameAt rest).length).map (· + 1) else none
  | .questionBeforeFraction, input =>
    if leads ['?', '.'] input && isFraction input then some 1 else none
  | .number, input => numberAt input
  | .string, input => stringAt input
  | .attributeString, input => attributeStringAt input
  | .regex, input => regexAt input
  | .templateText, input => positive (templateTextLength input)
  | .templateEscape, input => escapeLength input
  | .markupText, input => markupTextFrom false false 0 input
  | .characterReference, input => referenceAt input
  | .hashBang, input =>
    if leads ['#', '!'] input then some (run (· != '\n') input).length else none
  | .pageComment, input =>
    if leads "<!--".toList input || leads "-->".toList input then
      some (run (!isBreak ·) input).length
    else none

/-- Whether the lexeme must stand right after the one before it. -/
def isImmediate : Lexeme → Bool
  | .templateText | .templateEscape | .markupText => true
  | _ => false

end Lexeme
end Grammar
end Transplant
