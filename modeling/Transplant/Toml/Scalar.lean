import Transplant.Data.Fault
import Transplant.Data.Value

/-!
# Scalars of TOML

Texts in four kinds of quotes, numbers in four bases, and dates and times. Every reader takes what
is left of the document and gives the value with what is left after it, or nothing if the document
is wrong there.
-/

namespace Transplant
namespace Toml

/-- The quote around texts with escapes. -/
def quote : Char := '"'

/-- The quote around texts without escapes. -/
def apostrophe : Char := Char.ofNat 39

/-- What follows the blanks of a line. -/
def skipBlanks (s : List Char) : List Char := s.dropWhile fun c => c == ' ' || c == '\t'

/-- What follows blanks and line ends. -/
def skipSpace (s : List Char) : List Char :=
  s.dropWhile fun c => c == ' ' || c == '\t' || c == '\n'

/-- Whether a character must not stand in a text or a comment: all control characters but the tab,
and the line feed where a text goes over several lines. -/
def isForbidden (multiline : Bool) (c : Char) : Bool :=
  (c.toNat < 0x20 || c.toNat == 0x7F) && c != '\t' && !(multiline && c == '\n')

/-! ## Texts -/

/-- The number of `n` hexadecimal digits. -/
def hexDigits? : Nat → Nat → List Char → Option (Nat × List Char)
  | 0, acc, s => some (acc, s)
  | n + 1, acc, c :: rest => (Text.hexValue? c).bind fun d => hexDigits? n (acc * 16 + d) rest
  | _ + 1, _, [] => none

/-- The character of `n` hexadecimal digits. -/
def hexChar? (n : Nat) (s : List Char) : Option (Char × List Char) := do
  let (code, rest) ← hexDigits? n 0 s
  if code < 0xD800 || (0xE000 ≤ code && code < 0x110000) then some (Char.ofNat code, rest) else none

/-- The character that a letter behind a backslash stands for. -/
def escaped? (c : Char) : Option Char :=
  match c with
  | 'b' => some (Char.ofNat 8)
  | 't' => some '\t'
  | 'n' => some '\n'
  | 'f' => some (Char.ofNat 12)
  | 'r' => some '\r'
  | '"' | '\\' => some c
  | _ => none

/-- What follows a backslash at the end of a line: the next character that is no space. -/
def skipLineEnd? (s : List Char) : Option (List Char) :=
  match skipBlanks s with
  | [] => some []
  | '\n' :: rest => some (skipSpace rest)
  | _ => none

/-- What a backslash and what follows it stand for. -/
def escape? (multiline : Bool) (s : List Char) : Option (List Char × List Char) :=
  match s with
  | [] => none
  | 'u' :: rest => (hexChar? 4 rest).map fun r => ([r.1], r.2)
  | 'U' :: rest => (hexChar? 8 rest).map fun r => ([r.1], r.2)
  | c :: rest =>
    if multiline && (c == ' ' || c == '\t' || c == '\n') then (skipLineEnd? s).map ([], ·)
    else (escaped? c).map fun e => ([e], rest)

/-- What stands up to the closing quotes of a text with escapes. -/
def basicBody (multiline : Bool) : Nat → List Char → Option (List Char × List Char)
  | 0, _ => none
  | fuel + 1, s =>
    match s with
    | [] => none
    | '\\' :: rest => do
      let (cs, rest) ← escape? multiline rest
      let (tail, rest) ← basicBody multiline fuel rest
      return (cs ++ tail, rest)
    | c :: rest =>
      if c == quote && (!multiline || [quote, quote].isPrefixOf rest) then
        some ([], if multiline then rest.drop 2 else rest)
      else if isForbidden multiline c then none
      else (basicBody multiline fuel rest).map fun r => (c :: r.1, r.2)

/-- What stands up to the closing quotes of a text without escapes. -/
def literalBody (multiline : Bool) : List Char → Option (List Char × List Char)
  | [] => none
  | c :: rest =>
    if c == apostrophe && (!multiline || [apostrophe, apostrophe].isPrefixOf rest) then
      some ([], if multiline then rest.drop 2 else rest)
    else if isForbidden multiline c then none
    else (literalBody multiline rest).map fun r => (c :: r.1, r.2)

/-- At most two more quotes behind the closing ones, which belong to the text. -/
def moreQuotes (delimiter : Char) (s : List Char) : List Char × List Char :=
  let extra := (s.takeWhile (· == delimiter)).take 2
  (extra, s.drop extra.length)

/-- What stands between quotes of a kind, behind the opening ones. -/
def body? (delimiter : Char) (multiline : Bool) (s : List Char) : Option (List Char × List Char) :=
  if delimiter == quote then basicBody multiline (s.length + 1) s else literalBody multiline s

/-- A text on one line, behind its opening quote. -/
def lineText? (delimiter : Char) (s : List Char) : Option (String × List Char) :=
  (body? delimiter false s).map fun r => (String.ofList r.1, r.2)

/-- A text over several lines, behind its opening quotes. A line end right there is not part of
it. -/
def blockText? (delimiter : Char) (s : List Char) : Option (String × List Char) := do
  let start :=
    match s with
    | '\n' :: rest => rest
    | _ => s
  let (cs, rest) ← body? delimiter true start
  let (extra, rest) := moreQuotes delimiter rest
  return (String.ofList (cs ++ extra), rest)

/-- A text behind its first quote. -/
def text? (delimiter : Char) (s : List Char) : Option (String × List Char) :=
  if [delimiter, delimiter].isPrefixOf s then blockText? delimiter (s.drop 2)
  else lineText? delimiter s

/-! ## Numbers -/

/-- More digits of a set. A single underscore may stand in front of each. -/
def moreDigits (isDigit : Char → Bool) : List Char → List Char × List Char
  | '_' :: d :: rest =>
    if isDigit d then
      let (ds, after) := moreDigits isDigit rest
      (d :: ds, after)
    else ([], '_' :: d :: rest)
  | c :: rest =>
    if isDigit c then
      let (ds, after) := moreDigits isDigit rest
      (c :: ds, after)
    else ([], c :: rest)
  | [] => ([], [])

/-- At least one digit of a set. -/
def digits? (isDigit : Char → Bool) : List Char → Option (List Char × List Char)
  | c :: rest =>
    if isDigit c then
      let (ds, after) := moreDigits isDigit rest
      some (c :: ds, after)
    else none
  | [] => none

/-- The number that some digits stand for. -/
def natOf (base : Nat) (ds : List Char) : Nat :=
  ds.foldl (fun n c => n * base + (Text.hexValue? c).getD 0) 0

/-- The base that a letter behind a zero stands for. -/
def base? (c : Char) : Option Nat :=
  match c with
  | 'x' => some 16
  | 'o' => some 8
  | 'b' => some 2
  | _ => none

/-- Whether a character is a digit in a base. -/
def isDigitOf (base : Nat) (c : Char) : Bool := (Text.hexValue? c).any (· < base)

/-- A whole number in one of the bases 2, 8 and 16. -/
def based? (s : List Char) : Option (Value × List Char) :=
  match s with
  | '0' :: letter :: rest => do
    let base ← base? letter
    let (ds, rest) ← digits? (isDigitOf base) rest
    return (.int (natOf base ds), rest)
  | _ => none

/-- A sign, if there is one, and whether it is a minus. -/
def sign (s : List Char) : Bool × List Char :=
  match s with
  | '-' :: rest => (true, rest)
  | '+' :: rest => (false, rest)
  | _ => (false, s)

/-- The digits behind a point, if there are any. -/
def fraction (s : List Char) : List Char × List Char :=
  match s with
  | '.' :: rest => (digits? Text.isDigit rest).getD ([], s)
  | _ => ([], s)

/-- The exponent, if there is one. -/
def exponent (s : List Char) : Option Int × List Char :=
  match s with
  | [] => (none, s)
  | e :: rest =>
    if e == 'e' || e == 'E' then
      let (negative, after) := sign rest
      match digits? Text.isDigit after with
      | some (ds, after) => (some (if negative then -(natOf 10 ds : Int) else natOf 10 ds), after)
      | none => (none, s)
    else (none, s)

/-- The whole part of a decimal number, which begins with a zero only if it is one. -/
def whole? (s : List Char) : Option (List Char × List Char) :=
  match s with
  | '0' :: rest => some (['0'], rest)
  | _ => digits? Text.isDigit s

/-- A decimal number. -/
def decimal (s : List Char) : Except DataFault (Value × List Char) := do
  let (negative, rest) := sign s
  let (whole, rest) ← DataFault.need (whole? rest)
  let (places, rest) := fraction rest
  let (e, rest) := exponent rest
  if places.isEmpty && e.isNone then
    let n ← DataFault.whole whole
    return (.int (if negative then -(n : Int) else n), rest)
  else
    return (.float (Binary64.ofDecimal negative (natOf 10 (whole ++ places))
      (e.getD 0 - places.length)), rest)

/-- The words for numbers that are none. -/
def specials : List (String × Binary64) :=
  [("inf", .infinite false), ("nan", .undefined), ("+inf", .infinite false),
    ("-inf", .infinite true), ("+nan", .undefined), ("-nan", .undefined)]

/-- A word for a number that is none. -/
def special? (s : List Char) : Option (Value × List Char) :=
  (specials.find? fun w => w.1.toList.isPrefixOf s).map fun w =>
    (.float w.2, s.drop w.1.toList.length)

/-! ## Dates and times -/

/-- Exactly `n` digits. -/
def fixed? (n : Nat) (s : List Char) : Option (List Char × List Char) :=
  let ds := s.take n
  if ds.length = n && ds.all Text.isDigit then some (ds, s.drop n) else none

/-- A number of two digits within bounds. -/
def pair? (low high : Nat) (s : List Char) : Option (Nat × List Char) := do
  let (ds, rest) ← fixed? 2 s
  if low ≤ natOf 10 ds && natOf 10 ds ≤ high then some (natOf 10 ds, rest) else none

/-- What follows a given character. -/
def after? (c : Char) (s : List Char) : Option (List Char) :=
  match s with
  | d :: rest => if c == d then some rest else none
  | [] => none

/-- The number of days of a month. -/
def daysIn (year month : Nat) : Nat :=
  if month = 2 then
    if year % 4 = 0 && (year % 100 ≠ 0 || year % 400 = 0) then 29 else 28
  else if [4, 6, 9, 11].contains month then 30 else 31

/-- A date, and whether there is such a day. -/
def date? (s : List Char) : Option ((Day × Bool) × List Char) := do
  let (year, rest) ← fixed? 4 s
  let (month, rest) ← pair? 1 12 (← after? '-' rest)
  let (day, rest) ← pair? 1 31 (← after? '-' rest)
  let d : Day := ⟨natOf 10 year, month, day⟩
  return ((d, 1 ≤ d.year && day ≤ daysIn d.year month), rest)

/-- The part of a second, in millionths. Further digits do not count. -/
def micro (s : List Char) : Nat × List Char :=
  match s with
  | '.' :: rest =>
    let ds := rest.takeWhile Text.isDigit
    if ds.isEmpty then (0, s)
    else (natOf 10 ((ds ++ List.replicate 6 '0').take 6), rest.drop ds.length)
  | _ => (0, s)

/-- A time of day. -/
def time? (s : List Char) : Option (Clock × List Char) := do
  let (hour, rest) ← pair? 0 23 s
  let (minute, rest) ← pair? 0 59 (← after? ':' rest)
  let (second, rest) ← pair? 0 59 (← after? ':' rest)
  let (millionths, rest) := micro rest
  return (⟨hour, minute, second, millionths⟩, rest)

/-- A number of hours and minutes, in minutes. -/
def minutes? (s : List Char) : Option (Nat × List Char) := do
  let (hour, rest) ← pair? 0 23 s
  let (minute, rest) ← pair? 0 59 (← after? ':' rest)
  return (60 * hour + minute, rest)

/-- The distance to universal time, if it is given. -/
def offset (s : List Char) : Option Int × List Char :=
  match s with
  | [] => (none, s)
  | c :: rest =>
    if c == 'Z' || c == 'z' then (some 0, rest)
    else if c == '+' || c == '-' then
      match minutes? rest with
      | some (n, rest) => (some (if c == '-' then -(n : Int) else n), rest)
      | none => (none, s)
    else (none, s)

/-- The time behind a date, with what is needed in between, if there is one. -/
def timeAfterDate? (d : Day) (s : List Char) : Option (Moment × List Char) :=
  match s with
  | c :: after =>
    if c == 'T' || c == 't' || c == ' ' then
      (time? after).map fun (time, rest) =>
        let (zone, rest) := offset rest
        (.both d time zone, rest)
    else none
  | [] => none

/-- A date with a time, a date, or a time. A day that does not exist is an error. -/
def moment? (s : List Char) : Option (Option Value × List Char) :=
  match date? s with
  | some ((d, real), rest) =>
    let (m, rest) := (timeAfterDate? d rest).getD (.day d, rest)
    some (if real then some (.moment m) else none, rest)
  | none => (time? s).map fun (time, rest) => (some (.moment (.clock time)), rest)

/-- A number, or a word for one. -/
def number (s : List Char) : Except DataFault (Value × List Char) :=
  match based? s with
  | some found => .ok found
  | none =>
    match decimal s with
    | .error .malformed => DataFault.need (special? s)
    | found => found

/-- A date, a time or a number. -/
def bare (s : List Char) : Except DataFault (Value × List Char) :=
  match moment? s with
  | some (v, rest) => (DataFault.need v).map (·, rest)
  | none => number s

end Toml
end Transplant
