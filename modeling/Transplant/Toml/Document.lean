import Transplant.Data.Table
import Transplant.Toml.Scalar

/-!
# TOML documents

A document is a list of lines: an entry `key = value`, the header of a table or of one more element
of a list of tables, a comment, or nothing. Keys with dots name nested tables.

Tables are opened once. `Ledger` keeps what has been opened: the tables that have had their header
or that a dotted key has made, and the values that are closed for good, which are the lists and
tables written in one piece.

* `Toml.parse`: the table that a document describes
-/

namespace Transplant
namespace Toml

/-- The names of a key, outermost first. -/
abbrev Key := List String

/-! ## Values -/

/-- Whether a character can stand in a key without quotes. -/
def inBareKey (c : Char) : Bool := Text.isLetter c || Text.isDigit c || c == '-' || c == '_'

/-- One name of a key. -/
def keyPart? (s : List Char) : Option (String × List Char) :=
  match s with
  | [] => none
  | c :: rest =>
    if inBareKey c then some (String.ofList (s.takeWhile inBareKey), s.dropWhile inBareKey)
    else if c == quote || c == apostrophe then lineText? c rest
    else none

/-- A key with the blanks after it. -/
def key? : Nat → List Char → Option (Key × List Char)
  | 0, _ => none
  | fuel + 1, s => do
    let (name, rest) ← keyPart? s
    match skipBlanks rest with
    | '.' :: after =>
      let (names, rest) ← key? fuel (skipBlanks after)
      return (name :: names, rest)
    | rest => return ([name], rest)

/-- What follows a comment, if there is one. -/
def skipComment? (s : List Char) : Option (List Char) :=
  match s with
  | '#' :: rest =>
    let comment := rest.takeWhile (· != '\n')
    if comment.any (isForbidden false) then none else some (rest.drop comment.length)
  | _ => some s

/-- What follows blanks, line ends and comments inside a list. -/
def skipFiller? : Nat → List Char → Option (List Char)
  | 0, _ => none
  | fuel + 1, s =>
    match skipSpace s with
    | '#' :: rest => (skipComment? ('#' :: rest)).bind (skipFiller? fuel)
    | rest => some rest

/-- The tables entered one after the other below a key, all of them made if need be, with the last
one changed by `f`. The last element of a list of tables counts as the table if `inLists`. -/
def within? (inLists : Bool) (f : List (String × Value) → Option (List (String × Value))) :
    Key → List (String × Value) → Option (List (String × Value))
  | [], entries => f entries
  | name :: rest, entries => do
    let child ←
      match (entries.lookup name).getD (.table []) with
      | .table inner => (within? inLists f rest inner).map Value.table
      | .list items =>
        match items.getLast? with
        | some (.table inner) =>
          if inLists then
            (within? inLists f rest inner).map fun t => Value.list (items.dropLast ++ [.table t])
          else none
        | _ => none
      | _ => none
    return Table.putEntry name child entries

/-- The entries with one more, unless it is there already. -/
def insertNew? (name : String) (v : Value) (entries : List (String × Value)) :
    Option (List (String × Value)) :=
  if (entries.lookup name).isSome then none else some (entries ++ [(name, v)])

/-- The key without its last name, and that name. -/
def splitLast (key : Key) : Key × String := (key.dropLast, key.getLast?.getD "")

/-- Whether a value is written in one piece and may not be added to. -/
def isClosed : Value → Bool
  | .list _ | .table _ => true
  | _ => false

/-- Whether a key or the beginning of it is closed. -/
def isFrozen (frozen : List Key) (key : Key) : Bool := frozen.any (·.isPrefixOf key)

mutual

/-- A value. -/
def value : Nat → List Char → Except DataFault (Value × List Char)
  | 0, _ => .error .malformed
  | fuel + 1, s =>
    match s with
    | [] => .error .malformed
    | '[' :: rest => do
      match ← DataFault.need (skipFiller? (rest.length + 1) rest) with
      | ']' :: after => return (.list [], after)
      | inside =>
        let (vs, rest) ← items fuel inside
        return (.list vs, rest)
    | c :: rest =>
      if c == quote || c == apostrophe then
        DataFault.need ((text? c rest).map fun r => (.text r.1, r.2))
      else if c == '\x7b' then
        match skipBlanks rest with
        | '\x7d' :: after => .ok (.table [], after)
        | inside => (inlineEntries fuel [] [] inside).map fun r => (.table r.1, r.2)
      else if "true".toList.isPrefixOf s then .ok (.bool true, s.drop 4)
      else if "false".toList.isPrefixOf s then .ok (.bool false, s.drop 5)
      else bare s

/-- The elements of a list up to its end; a comma may stand behind the last one. -/
def items : Nat → List Char → Except DataFault (List Value × List Char)
  | 0, _ => .error .malformed
  | fuel + 1, s => do
    let (v, rest) ← value fuel s
    match ← DataFault.need (skipFiller? (rest.length + 1) rest) with
    | ']' :: after => return ([v], after)
    | ',' :: after =>
      match ← DataFault.need (skipFiller? (after.length + 1) after) with
      | ']' :: after => return ([v], after)
      | inside =>
        let (vs, rest) ← items fuel inside
        return (v :: vs, rest)
    | _ => throw .malformed

/-- The entries of a table written in one piece, up to its end. -/
def inlineEntries : Nat → List Key → List (String × Value) → List Char →
    Except DataFault (List (String × Value) × List Char)
  | 0, _, _, _ => .error .malformed
  | fuel + 1, frozen, entries, s => do
    let (key, rest) ← DataFault.need (key? (s.length + 1) s)
    let (v, rest) ← value fuel (skipBlanks (← DataFault.need (after? '=' rest)))
    if isFrozen frozen key then throw .malformed
    let (parent, name) := splitLast key
    let entries ← DataFault.need (within? false (insertNew? name v) parent entries)
    match skipBlanks rest with
    | '\x7d' :: after => return (entries, after)
    | ',' :: after =>
      let frozen := if isClosed v then key :: frozen else frozen
      inlineEntries fuel frozen entries (skipBlanks after)
    | _ => throw .malformed

end

/-! ## Lines -/

/-- What has been opened and closed so far. -/
structure Ledger where
  /-- Tables that must not be opened again. -/
  opened : List Key := []
  /-- Keys whose values are closed for good. -/
  frozen : List Key := []
  /-- Tables made by dotted keys under the present header; they count as opened from the next
  header on. -/
  pending : List Key := []

/-- A document as far as it has been read. -/
structure Draft where
  entries : List (String × Value) := []
  header : Key := []
  ledger : Ledger := {}

/-- The keys that have the given one as their beginning are forgotten. -/
def forget (key : Key) (keys : List Key) : List Key := keys.filter fun k => !key.isPrefixOf k

/-- The ledger at a new header. -/
def Ledger.settle (l : Ledger) : Ledger := { l with opened := l.pending ++ l.opened, pending := [] }

/-- The document with the header of a table. -/
def Draft.openTable? (d : Draft) (key : Key) : Option Draft := do
  let ledger := d.ledger.settle
  if ledger.opened.contains key || isFrozen ledger.frozen key then none
  let entries ← within? true some key d.entries
  return { entries, header := key, ledger := { ledger with opened := key :: ledger.opened } }

/-- The entries with one more empty table in the list of a name. -/
def appendTable? (name : String) (entries : List (String × Value)) :
    Option (List (String × Value)) :=
  match entries.lookup name with
  | none => some (entries ++ [(name, .list [.table []])])
  | some (.list items) => some (Table.putEntry name (.list (items ++ [.table []])) entries)
  | some _ => none

/-- The document with the header of one more element of a list of tables. -/
def Draft.openElement? (d : Draft) (key : Key) : Option Draft := do
  let ledger := d.ledger.settle
  if isFrozen ledger.frozen key then none
  let ledger :=
    { ledger with opened := key :: forget key ledger.opened, frozen := forget key ledger.frozen }
  let (parent, name) := splitLast key
  let entries ← within? true (appendTable? name) parent d.entries
  return { entries, header := key, ledger }

/-- The tables that a dotted key goes through. -/
def through (header key : Key) : List Key :=
  (List.range (key.length - 1)).map fun i => header ++ key.take (i + 1)

/-- The document with one more entry. -/
def Draft.add? (d : Draft) (key : Key) (v : Value) : Option Draft := do
  let passed := through d.header key
  if passed.any d.ledger.opened.contains then none
  let (parent, name) := splitLast key
  if isFrozen d.ledger.frozen (d.header ++ parent) then none
  let entries ← within? true (insertNew? name v) (d.header ++ parent) d.entries
  let frozen := if isClosed v then (d.header ++ key) :: d.ledger.frozen else d.ledger.frozen
  return { d with entries, ledger := { d.ledger with frozen, pending := passed ++ d.ledger.pending } }

/-- The document with one more line, and what is left after it. -/
def Draft.line (d : Draft) (s : List Char) : Except DataFault (Draft × List Char) :=
  match s with
  | '[' :: '[' :: rest => DataFault.need do
    let (key, rest) ← key? (rest.length + 1) (skipBlanks rest)
    let d ← d.openElement? key
    return (d, ← after? ']' (← after? ']' rest))
  | '[' :: rest => DataFault.need do
    let (key, rest) ← key? (rest.length + 1) (skipBlanks rest)
    let d ← d.openTable? key
    return (d, ← after? ']' rest)
  | _ => do
    let (key, rest) ← DataFault.need (key? (s.length + 1) s)
    let (v, rest) ←
      value (2 * rest.length + 2) (skipBlanks (← DataFault.need (after? '=' rest)))
    let d ← DataFault.need (d.add? key v)
    return (d, rest)

/-- The document with all lines that are left. -/
def Draft.lines : Nat → Draft → List Char → Except DataFault Draft
  | 0, _, _ => .error .malformed
  | fuel + 1, d, s =>
    match skipBlanks s with
    | [] => .ok d
    | '\n' :: rest => d.lines fuel rest
    | '#' :: rest => do
      let after ← DataFault.need (skipComment? ('#' :: rest))
      d.lines fuel after
    | start => do
      let (d, rest) ← d.line start
      let rest ← DataFault.need (skipComment? (skipBlanks rest))
      match rest with
      | [] => return d
      | '\n' :: rest => d.lines fuel rest
      | _ => throw .malformed

/-- The table that a document describes. Line ends are line feeds. -/
def parse (text : String) : Except DataFault (List (String × Value)) :=
  let s := text.toList
  (Draft.lines (s.length + 1) {} s).map (·.entries)

end Toml
end Transplant
