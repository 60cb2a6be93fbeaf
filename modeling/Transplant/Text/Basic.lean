/-!
# Text by characters

Every test and cut on a text in this library goes through its list of characters, so that a fact
about texts is a fact about lists: `Text.startsWith` is `List.isPrefixOf`, `Text.drop` is
`List.drop`, and so on.

* `Text.startsWith`, `Text.endsWith`, `Text.drop`, `Text.dropLast`, `Text.inner`
* `Text.splitAll`, `Text.cut?`, `Text.join`
* `Text.lower`: lower case of the ASCII letters, all that a comparison with an ASCII ending needs
-/

namespace Transplant
namespace Text

/-- Whether `lead` stands at the beginning of `s`. -/
def startsWith (s lead : String) : Bool := lead.toList.isPrefixOf s.toList

/-- Whether `tail` stands at the end of `s`. -/
def endsWith (s tail : String) : Bool := tail.toList.isSuffixOf s.toList

/-- The text without its first `n` characters. -/
def drop (s : String) (n : Nat) : String := String.ofList (s.toList.drop n)

/-- The text without its last `n` characters. -/
def dropLast (s : String) (n : Nat) : String :=
  String.ofList (s.toList.take (s.toList.length - n))

/-- The text between its first and its last character, as between the quotes of a literal. -/
def inner (s : String) : String := dropLast (drop s 1) 1

/-- The number of characters. -/
def size (s : String) : Nat := s.toList.length

/-- The text without `lead` at its beginning, or as it is when `lead` is not there. -/
def withoutLead (s lead : String) : String :=
  if startsWith s lead then drop s (size lead) else s

/-- The parts of a list between the elements equal to `sep`. -/
def splitList (sep : Char) : List Char → List (List Char)
  | [] => [[]]
  | c :: rest =>
    if c = sep then [] :: splitList sep rest
    else match splitList sep rest with
      | [] => [[c]]
      | part :: parts => (c :: part) :: parts

/-- The parts of a text between the occurrences of `sep`; one part more than occurrences. -/
def splitAll (sep : Char) (s : String) : List String :=
  (splitList sep s.toList).map String.ofList

/-- What stands before and after the first `sep`, if there is one. -/
def cut? (sep : Char) (s : String) : Option (String × String) :=
  let before := s.toList.takeWhile (· ≠ sep)
  match s.toList.dropWhile (· ≠ sep) with
  | [] => none
  | _ :: after => some (String.ofList before, String.ofList after)

/-- The texts one after the other with `sep` between neighbours. -/
def join (sep : String) : List String → String
  | [] => ""
  | [s] => s
  | s :: rest => s ++ sep ++ join sep rest

/-- The texts one after the other. -/
def concat : List String → String
  | [] => ""
  | s :: rest => s ++ concat rest

/-- Lower case of the ASCII letters; every other character is kept. -/
def lower (s : String) : String := String.ofList (s.toList.map Char.toLower)

/-- Whether some element of `tails` ends the text. -/
def endsWithAny (s : String) (tails : List String) : Bool := tails.any (endsWith s)

/-- Whether `part` stands somewhere in the list. -/
def occursIn (part : List Char) : List Char → Bool
  | [] => part.isEmpty
  | c :: rest => part.isPrefixOf (c :: rest) || occursIn part rest

/-- Whether `part` stands somewhere in `s`. -/
def contains (s part : String) : Bool := occursIn part.toList s.toList

/-- Whether a digit of the decimal system. -/
def isDigit (c : Char) : Bool := '0' ≤ c && c ≤ '9'

/-- Whether a letter from `A` to `Z`. -/
def isCapital (c : Char) : Bool := 'A' ≤ c && c ≤ 'Z'

/-- Whether an ASCII letter. -/
def isLetter (c : Char) : Bool := isCapital c || ('a' ≤ c && c ≤ 'z')

/-- The value of a hexadecimal digit. -/
def hexValue? (c : Char) : Option Nat :=
  if isDigit c then some (c.toNat - 48)
  else if 'a' ≤ c && c ≤ 'f' then some (c.toNat - 87)
  else if 'A' ≤ c && c ≤ 'F' then some (c.toNat - 55)
  else none

/-- Order by code points, the order in which listings of texts are sorted. -/
def before (a b : String) : Bool := decide (a.toList < b.toList)

/-- `a` does not come after `b` in code point order. -/
def notAfter (a b : String) : Bool := !before b a

/-- The texts in code point order. -/
def sort (l : List String) : List String := l.mergeSort notAfter

/-- The texts in order of first occurrence, each once. -/
def distinct (l : List String) : List String :=
  l.foldl (fun seen s => if seen.contains s then seen else seen ++ [s]) []

theorem startsWith_iff {s lead : String} :
    startsWith s lead = true ↔ lead.toList <+: s.toList := by
  simp [startsWith]

theorem endsWith_iff {s tail : String} :
    endsWith s tail = true ↔ tail.toList <:+ s.toList := by
  simp [endsWith]

@[simp] theorem toList_drop (s : String) (n : Nat) : (drop s n).toList = s.toList.drop n := by
  simp [drop]

end Text
end Transplant
