import Transplant.Data.Fault
import Transplant.Data.Table
import Transplant.Data.Value

/-!
# JSON

Reads the text of a JSON document. Nothing may follow the document but blanks, and a byte order
mark in front is refused. Of two members with one name the last counts.

* `Json.parse`: the value that a text holds
-/

namespace Transplant
namespace Json

/-- What follows the blanks. -/
def skip (s : List Char) : List Char :=
  s.dropWhile fun c => c == ' ' || c == '\t' || c == '\n' || c == '\r'

/-- The number of four hexadecimal digits. -/
def hex4? : List Char → Option (Nat × List Char)
  | a :: b :: c :: d :: rest => do
    let a ← Text.hexValue? a
    let b ← Text.hexValue? b
    let c ← Text.hexValue? c
    let d ← Text.hexValue? d
    return (((a * 16 + b) * 16 + c) * 16 + d, rest)
  | _ => none

/-- The character of a code unit. Two halves of one character come one after the other; a half that
stands alone is no character. -/
def unit? (s : List Char) : Option (Char × List Char) := do
  let (high, rest) ← hex4? s
  let alone := some (if 0xD800 ≤ high && high < 0xE000 then Char.ofNat 0xFFFD else Char.ofNat high, rest)
  if 0xD800 ≤ high && high < 0xDC00 then
    match rest with
    | '\\' :: 'u' :: tail =>
      match hex4? tail with
      | some (low, after) =>
        if 0xDC00 ≤ low && low < 0xE000 then
          some (Char.ofNat (0x10000 + (high - 0xD800) * 0x400 + (low - 0xDC00)), after)
        else alone
      | none => alone
    | _ => alone
  else alone

/-- The character that a letter behind a backslash stands for. -/
def escaped? (c : Char) : Option Char :=
  match c with
  | '"' | '\\' | '/' => some c
  | 'b' => some (Char.ofNat 8)
  | 'f' => some (Char.ofNat 12)
  | 'n' => some '\n'
  | 'r' => some '\r'
  | 't' => some '\t'
  | _ => none

/-- What stands up to the closing quote. -/
def stringBody : Nat → List Char → Option (List Char × List Char)
  | 0, _ => none
  | fuel + 1, s =>
    match s with
    | '"' :: rest => some ([], rest)
    | '\\' :: 'u' :: rest => do
      let (c, rest) ← unit? rest
      let (cs, rest) ← stringBody fuel rest
      return (c :: cs, rest)
    | '\\' :: c :: rest => do
      let c ← escaped? c
      let (cs, rest) ← stringBody fuel rest
      return (c :: cs, rest)
    | c :: rest => do
      if c.toNat < 0x20 || c == '\\' then none
      let (cs, rest) ← stringBody fuel rest
      return (c :: cs, rest)
    | [] => none

/-- A string behind its opening quote. -/
def string? (s : List Char) : Option (String × List Char) :=
  (stringBody (s.length + 1) s).map fun r => (String.ofList r.1, r.2)

/-- The digits in front, and what follows them. -/
def digits (s : List Char) : List Char × List Char := s.span Text.isDigit

/-- The number that some digits stand for. -/
def natOf (ds : List Char) : Nat := ds.foldl (fun n c => n * 10 + (c.toNat - 48)) 0

/-- The digits behind a point, if there are any. -/
def fraction (s : List Char) : List Char × List Char :=
  match s with
  | '.' :: rest =>
    let (ds, after) := digits rest
    if ds.isEmpty then ([], s) else (ds, after)
  | _ => ([], s)

/-- The exponent, if there is one. -/
def exponent (s : List Char) : Option Int × List Char :=
  match s with
  | e :: rest =>
    if e == 'e' || e == 'E' then
      let (negative, after) :=
        match rest with
        | '-' :: after => (true, after)
        | '+' :: after => (false, after)
        | _ => (false, rest)
      let (ds, after) := digits after
      if ds.isEmpty then (none, s)
      else (some (if negative then -(natOf ds : Int) else natOf ds), after)
    else (none, s)
  | [] => (none, s)

/-- A number without its sign. A number with a point or an exponent is no whole number. -/
def unsigned (negative : Bool) (s : List Char) : Except DataFault (Value × List Char) := do
  let (whole, rest) :=
    match s with
    | '0' :: rest => (['0'], rest)
    | _ => digits s
  if whole.isEmpty then throw .malformed
  let (places, rest) := fraction rest
  let (e, rest) := exponent rest
  if places.isEmpty && e.isNone then
    let n ← DataFault.whole whole
    return (.int (if negative then -(n : Int) else n), rest)
  else
    return (.float (Binary64.ofDecimal negative (natOf (whole ++ places))
      (e.getD 0 - places.length)), rest)

/-- The words, and what they stand for. -/
def words : List (String × Value) :=
  [("null", .none), ("true", .bool true), ("false", .bool false), ("NaN", .float .undefined),
    ("Infinity", .float (.infinite false)), ("-Infinity", .float (.infinite true))]

/-- A word or a number. -/
def scalar (s : List Char) : Except DataFault (Value × List Char) :=
  match words.find? fun w => w.1.toList.isPrefixOf s with
  | some w => .ok (w.2, s.drop w.1.toList.length)
  | none =>
    match s with
    | '-' :: rest => unsigned true rest
    | _ => unsigned false s

mutual

/-- A value. -/
def value : Nat → List Char → Except DataFault (Value × List Char)
  | 0, _ => .error .malformed
  | fuel + 1, s =>
    match s with
    | '"' :: rest => DataFault.need ((string? rest).map fun r => (.text r.1, r.2))
    | '[' :: rest =>
      match skip rest with
      | ']' :: after => .ok (.list [], after)
      | inside => (items fuel inside).map fun r => (.list r.1, r.2)
    | c :: rest =>
      if c == '\x7b' then
        match skip rest with
        | '\x7d' :: after => .ok (.table [], after)
        | inside => (members fuel inside).map fun r => (.table (Table.ofPairs r.1).entries, r.2)
      else scalar s
    | [] => .error .malformed

/-- The elements of a list up to its end. -/
def items : Nat → List Char → Except DataFault (List Value × List Char)
  | 0, _ => .error .malformed
  | fuel + 1, s => do
    let (v, rest) ← value fuel s
    match skip rest with
    | ']' :: after => return ([v], after)
    | ',' :: after =>
      let (vs, rest) ← items fuel (skip after)
      return (v :: vs, rest)
    | _ => throw .malformed

/-- The members of an object up to its end. -/
def members : Nat → List Char → Except DataFault (List (String × Value) × List Char)
  | 0, _ => .error .malformed
  | fuel + 1, s =>
    match s with
    | '"' :: rest => do
      let (key, rest) ← DataFault.need (string? rest)
      match skip rest with
      | ':' :: after =>
        let (v, rest) ← value fuel (skip after)
        match skip rest with
        | '\x7d' :: after => return ([(key, v)], after)
        | ',' :: after =>
          let (vs, rest) ← members fuel (skip after)
          return ((key, v) :: vs, rest)
        | _ => throw .malformed
      | _ => throw .malformed
    | _ => .error .malformed

end

/-- The value of a document with blanks around it. -/
def document (s : List Char) : Except DataFault Value := do
  let (v, rest) ← value (2 * s.length + 2) (skip s)
  if (skip rest).isEmpty then return v else throw .malformed

/-- The value that a text holds. -/
def parse (text : String) : Except DataFault Value :=
  match text.toList with
  | [] => .error .malformed
  | c :: rest => if c.toNat = 0xFEFF then .error .malformed else document (c :: rest)

end Json
end Transplant
