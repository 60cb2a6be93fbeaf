import Transplant.Grammar.Word

/-!
# Literals

How many glyphs at the head of the input belong to a number, a quoted text, a regular expression or
a piece of a template or of markup. Each function gives the longest such piece, and `none` or zero
if there is none.
-/

namespace Transplant
namespace Grammar

open Utf8 (Glyph)

/-! ## Numbers -/

/-- The length of digits behind a digit: an underscore may stand between two of them. -/
def moreDigits (p : Char → Bool) : List Glyph → Nat
  | [] => 0
  | [g] => if p g.char then 1 else 0
  | g :: h :: rest =>
    if p g.char then moreDigits p (h :: rest) + 1
    else if g.char == '_' && p h.char then moreDigits p rest + 2
    else 0

/-- The length of digits, with single underscores between them. -/
def digits (p : Char → Bool) : List Glyph → Nat
  | [] => 0
  | g :: rest => if p g.char then moreDigits p rest + 1 else 0

/-- The length of an exponent, `0` if there is none. -/
def exponent : List Glyph → Nat
  | e :: s :: rest =>
    if e.char == 'e' || e.char == 'E' then
      if s.char == '+' || s.char == '-' then
        match digits Text.isDigit rest with
        | 0 => 0
        | n => n + 2
      else
        match digits Text.isDigit (s :: rest) with
        | 0 => 0
        | n => n + 1
    else 0
  | _ => 0

/-- The length of a number in base sixteen, eight or two after its two leading characters. -/
def based (p : Char → Bool) (rest : List Glyph) : Option Nat :=
  match digits p rest with
  | 0 => none
  | n => if leads ['n'] (rest.drop n) then some (n + 3) else some (n + 2)

/-- Whether a fraction or an exponent may follow the digits at the head: a zero in front of them
stands alone or before another digit than zero. -/
def isWhole : List Glyph → Bool
  | z :: d :: _ => z.char != '0' || !(Text.isDigit d.char || d.char == '_') ||
      (Text.isDigit d.char && d.char != '0')
  | _ => true

/-- The length of a decimal number. -/
def decimal (input : List Glyph) : Option Nat :=
  match digits Text.isDigit input with
  | 0 =>
    match input with
    | dot :: rest =>
      if dot.char == '.' then
        match digits Text.isDigit rest with
        | 0 => none
        | n => some (n + 1 + exponent (rest.drop n))
      else none
    | [] => none
  | n =>
    let rest := input.drop n
    if leads ['n'] rest then some (n + 1)
    else if !isWhole input then some n
    else if leads ['.'] rest then
      let m := digits Text.isDigit (rest.drop 1)
      some (n + 1 + m + exponent (rest.drop (m + 1)))
    else some (n + exponent rest)

/-- The length of the number at the head. -/
def numberAt (input : List Glyph) : Option Nat :=
  match input with
  | z :: x :: rest =>
    let inBase :=
      if z.char != '0' then none
      else if x.char == 'x' || x.char == 'X' then based isHex rest
      else if x.char == 'o' || x.char == 'O' then based (fun c => '0' ≤ c && c ≤ '7') rest
      else if x.char == 'b' || x.char == 'B' then based (fun c => c == '0' || c == '1') rest
      else none
    inBase <|> decimal input
  | _ => decimal input

/-! ## Quoted texts -/

/-- Whether an octal digit. -/
def isOctal (c : Char) : Bool := '0' ≤ c && c ≤ '7'

/-- The length of the escape at the head, backslash included: `\x` and `\u` need their digits. -/
def escapeLength : List Glyph → Option Nat
  | b :: e :: rest =>
    if b.char != '\\' then none
    else if e.char == 'x' then
      if (run isHex (rest.take 2)).length == 2 then some 4 else none
    else if e.char == 'u' then (positive (codePointLength rest)).map (· + 2)
    else if isOctal e.char then some ((run isOctal (rest.take 2)).length + 2)
    else if (e.char == '\r' || e.char == '?') && (rest.head?.map (isBreak ·.char)).getD false then
      some 3
    else some 2
  | _ => none

/-- The length of a quoted text whose opening quote has been read. The first `skipped` glyphs
belong to an escape, and `len` glyphs have been read. -/
def stringRest (quote : Char) (skipped len : Nat) : List Glyph → Option Nat
  | [] => none
  | g :: rest =>
    if 0 < skipped then stringRest quote (skipped - 1) (len + 1) rest
    else if g.char == quote then some (len + 1)
    else if g.char == '\n' || g.char == '\r' then none
    else if g.char == '\\' then
      match escapeLength (g :: rest) with
      | none => none
      | some n => stringRest quote (n - 1) (len + 1) rest
    else stringRest quote 0 (len + 1) rest

/-- The length of the quoted text at the head. -/
def stringAt : List Glyph → Option Nat
  | [] => none
  | q :: rest => if q.char == '"' || q.char == '\'' then stringRest q.char 0 1 rest else none

/-- The length of the text of a template up to its end, an escape or a substitution. -/
def templateTextLength : List Glyph → Nat
  | [] => 0
  | g :: rest =>
    if g.char == backquoteChar || g.char == '\\' then 0
    else if g.char == '$' && leads [openBraceChar] rest then 0
    else templateTextLength rest + 1

/-! ## Regular expressions -/

/-- The length of a regular expression after its opening slash; `len` glyphs are read, and
`inClass` says whether inside brackets. -/
def regexRest (len : Nat) (inClass : Bool) : List Glyph → Option Nat
  | [] => none
  | g :: rest =>
    if g.char == '\n' then none
    else if g.char == '\\' then
      match rest with
      | [] => none
      | e :: more => if e.char == '\n' then none else regexRest (len + 2) inClass more
    else if inClass then regexRest (len + 1) (g.char != ']') rest
    else if g.char == '[' then regexRest (len + 1) true rest
    else if g.char == '/' then
      some (len + 1 + (run (fun c => 'a' ≤ c && c ≤ 'z') rest).length)
    else regexRest (len + 1) false rest

/-- The length of the regular expression at the head. -/
def regexAt : List Glyph → Option Nat
  | s :: g :: rest =>
    if s.char == '/' && g.char != '/' then regexRest 1 false (g :: rest) else none
  | _ => none

/-! ## Markup -/

/-- `some n` if a semicolon follows the first `n` glyphs, whose number is in bounds. -/
def closedReference (most n : Nat) (rest : List Glyph) : Option Nat :=
  if 0 < n && n ≤ most && leads [';'] (rest.drop n) then some (n + 1) else none

/-- The length of the character reference at the head: at most thirty letters, five digits or six
hexadecimal ones. -/
def referenceAt : List Glyph → Option Nat
  | amp :: rest =>
    if amp.char != '&' then none
    else if leads ['#', 'x'] rest || leads ['#', 'X'] rest then
      let more := rest.drop 2
      (closedReference 6 (run isHex more).length more).map (· + 3)
    else if leads ['#'] rest then
      let more := rest.drop 1
      (closedReference 5 (run Text.isDigit more).length more).map (· + 2)
    else (closedReference 30 (run Text.isLetter rest).length rest).map (· + 1)
  | [] => none

/-- The length of a quoted attribute value whose opening quote has been read. The first `skipped`
glyphs belong to a reference, and `len` glyphs have been read. A backslash is a plain character, and
an ampersand that begins no reference takes the next character with it, even the quote. -/
def attributeStringRest (quote : Char) (skipped len : Nat) : List Glyph → Option Nat
  | [] => none
  | g :: rest =>
    if 0 < skipped then attributeStringRest quote (skipped - 1) (len + 1) rest
    else if g.char == quote then some (len + 1)
    else if g.char == '&' then
      match rest with
      | [] => none
      | h :: more =>
        if h.char == '#' || Text.isLetter h.char then
          match referenceAt (g :: h :: more) with
          | none => none
          | some n => attributeStringRest quote (n - 1) (len + 1) (h :: more)
        else attributeStringRest quote 0 (len + 2) more
    else attributeStringRest quote 0 (len + 1) rest

/-- The length of the quoted attribute value at the head. -/
def attributeStringAt : List Glyph → Option Nat
  | [] => none
  | q :: rest =>
    if q.char == '"' || q.char == '\'' then attributeStringRest q.char 0 1 rest else none

/-- The length of the markup text at the head, which ends at a tag, a brace or an ampersand.
`broken` says whether only blanks stand since the last line break, and `seen` whether there has been
anything else than line breaks with the blanks behind them: those alone are no text. -/
def markupTextFrom (broken seen : Bool) (len : Nat) : List Glyph → Option Nat
  | [] => if seen then some len else none
  | g :: rest =>
    if g.char == '<' || g.char == '>' || g.char == openBraceChar || g.char == closeBraceChar ||
        g.char == '&' then
      if seen then some len else none
    else if g.char == '\n' then markupTextFrom true seen (len + 1) rest
    else
      let broken := broken && isSpace g.char
      markupTextFrom broken (seen || !broken) (len + 1) rest

end Grammar
end Transplant
