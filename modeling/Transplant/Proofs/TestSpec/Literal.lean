import Transplant.TestSpec.Literal

/-!
# What a string literal stands for

A literal is written by escaping a text character by character (`Literal.body`).  It is read by the
rules of the language that the tests are written in: a string is a list of code units, a character
beyond the first plane gives two of them, and a backslash begins an escape.  All escapes of the
language are read here, not only the three that are written, so that reading could go wrong.

A text is read back from its literal if it has no return in it.  A return is not escaped, and a
literal that has one does not end.

## Backslashes

Whether a character is escaped cannot be seen from the character in front of it: in `\\'` the quote
ends the literal.  `waiting` goes through the text from the left and says whether a backslash still
waits for what it escapes.  Each character of a text is written so that nothing waits behind it, and
that carries over to the whole body.

* `Literal.value?`: the string that the body of a literal stands for
* `Literal.body_eq_replaced`: escaping one character at a time is replacing one character after the
  other in the whole text
* `Literal.value?_body`: what is read from a body that has been written
* `Literal.text_read_back`: literals are well formed, are read back, and differ for different texts
-/

namespace Transplant
namespace Literal

/-! ## Reading a literal -/

/-- The code units of a code point: beyond the first plane there are two halves. -/
def units (n : Nat) : List Nat :=
  if n < 0x10000 then [n] else [0xD800 + (n - 0x10000) / 0x400, 0xDC00 + (n - 0x10000) % 0x400]

/-- The string that a text is in the language of the tests. -/
def unitsOf (l : List Char) : List Nat := l.flatMap fun c => units c.toNat

/-- The number that hexadecimal digits stand for. -/
def hexOf? (digits : List Char) : Option Nat :=
  digits.foldlM (fun n d => (Text.hexValue? d).map (n * 16 + ·)) 0

/-- The code unit that a number of hexadecimal digits stand for, and what follows them. -/
def hex? (count : Nat) (l : List Char) : Option (List Nat × List Char) :=
  if count ≤ l.length then (hexOf? (l.take count)).map fun n => ([n], l.drop count) else none

/-- The code point that stands in braces, behind the opening one, and what follows it. -/
def braced? (l : List Char) : Option (List Nat × List Char) :=
  match l.dropWhile (· ≠ '\x7d') with
  | [] => none
  | _ :: after =>
    let digits := l.takeWhile (· ≠ '\x7d')
    if digits = [] then none
    else (hexOf? digits).bind fun n => if n ≤ 0x10FFFF then some (units n, after) else none

/-- Whether a character ends a line. -/
def endsLine (c : Char) : Bool := c == '\n' || c == '\r' || c == '\u2028' || c == '\u2029'

/-- The character that stands for another behind a backslash. -/
def meant (c : Char) : Char :=
  match c with
  | 'b' => '\x08'
  | 't' => '\t'
  | 'n' => '\n'
  | 'v' => '\x0b'
  | 'f' => '\x0c'
  | 'r' => '\r'
  | c => c

/-- What an escape stands for, behind its backslash, and what follows it.  An escaped line end stands
for nothing; a digit other than a lone zero is no escape. -/
def escaped? : List Char → Option (List Nat × List Char)
  | [] => none
  | 'x' :: rest => hex? 2 rest
  | 'u' :: '\x7b' :: rest => braced? rest
  | 'u' :: rest => hex? 4 rest
  | '0' :: rest => if (rest.head?.any Text.isDigit) then none else some ([0], rest)
  | '\r' :: '\n' :: rest => some ([], rest)
  | c :: rest =>
    if Text.isDigit c then none
    else if endsLine c then some ([], rest)
    else some (units (meant c).toNat, rest)

theorem length_of_hex? {count : Nat} {l after : List Char} {us : List Nat}
    (h : hex? count l = some (us, after)) : after.length ≤ l.length := by
  unfold hex? at h
  split at h
  · obtain ⟨n, -, hn⟩ := Option.map_eq_some_iff.mp h
    obtain ⟨-, rfl⟩ := Prod.mk.inj hn
    rw [List.length_drop]
    omega
  · cases h

theorem length_of_braced? {l after : List Char} {us : List Nat}
    (h : braced? l = some (us, after)) : after.length ≤ l.length := by
  have hdrop := (List.dropWhile_sublist (l := l) (· ≠ '\x7d')).length_le
  unfold braced? at h
  split at h
  · cases h
  · rename_i hrest
    rw [hrest, List.length_cons] at hdrop
    dsimp only at h
    split at h
    · cases h
    · obtain ⟨n, -, hn⟩ := Option.bind_eq_some_iff.mp h
      split at hn
      · obtain ⟨-, rfl⟩ := Prod.mk.inj (Option.some.inj hn)
        omega
      · cases hn

theorem length_of_escaped? {l after : List Char} {us : List Nat}
    (h : escaped? l = some (us, after)) : after.length ≤ l.length := by
  unfold escaped? at h
  split at h
  · cases h
  · have := length_of_hex? h
    rw [List.length_cons]
    omega
  · have := length_of_braced? h
    rw [List.length_cons, List.length_cons]
    omega
  · have := length_of_hex? h
    rw [List.length_cons]
    omega
  all_goals grind

/-- The string that the body of a literal stands for.  There is none if a quote or the end of a line
stands in the body, or if an escape is wrong. -/
def value? : List Char → Option (List Nat)
  | [] => some []
  | c :: rest =>
    if c = '\\' then
      match _h : escaped? rest with
      | none => none
      | some (us, after) => (value? after).map (us ++ ·)
    else if c = '\'' ∨ c = '\n' ∨ c = '\r' then none
    else (value? rest).map (units c.toNat ++ ·)
termination_by l => l.length
decreasing_by
  · have := length_of_escaped? _h
    rw [List.length_cons]
    omega
  · rw [List.length_cons]
    omega

theorem value?_escape {rest after : List Char} {us : List Nat}
    (h : escaped? rest = some (us, after)) :
    value? ('\\' :: rest) = (value? after).map (us ++ ·) := by
  rw [value?, if_pos rfl]
  split
  · rename_i hnone
    rw [h] at hnone
    cases hnone
  · rename_i hsome
    rw [h] at hsome
    obtain ⟨rfl, rfl⟩ := Prod.mk.inj (Option.some.inj hsome)
    rfl

theorem value?_plain {c : Char} (rest : List Char) (hescape : c ≠ '\\')
    (hstop : ¬ (c = '\'' ∨ c = '\n' ∨ c = '\r')) :
    value? (c :: rest) = (value? rest).map (units c.toNat ++ ·) := by
  rw [value?, if_neg hescape, if_neg hstop]

theorem value?_return (rest : List Char) : value? ('\r' :: rest) = none := by
  rw [value?, if_neg (by decide), if_pos (by decide)]

/-! ## Writing a literal -/

@[simp] theorem body_nil : body [] = [] := rfl

@[simp] theorem body_cons (c : Char) (cs : List Char) : body (c :: cs) = escape c ++ body cs := rfl

/-- A text in which a character is replaced wherever it stands. -/
def replaced (c : Char) (new l : List Char) : List Char :=
  l.flatMap fun x => if x = c then new else [x]

/-- **A body is what three replacements in the whole text make**, one after the other: what one of
them writes is not touched by the next, as backslashes are replaced first. -/
theorem body_eq_replaced (cs : List Char) :
    body cs = replaced '\n' ['\\', 'n']
      (replaced '\'' ['\\', '\''] (replaced '\\' ['\\', '\\'] cs)) := by
  induction cs with
  | nil => rfl
  | cons c rest ih =>
    have hsplit : ∀ (x : Char) (new l r : List Char),
        replaced x new (l ++ r) = replaced x new l ++ replaced x new r :=
      fun _ _ _ _ => List.flatMap_append
    rw [body_cons, ih, ← List.singleton_append (l := rest), hsplit, hsplit, hsplit]
    congr 1
    unfold escape
    split
    · subst c
      decide
    · split
      · subst c
        decide
      · split
        · subst c
          decide
        · simp_all [replaced]

/-- Reading what a character is written as. -/
theorem value?_escape_append {c : Char} (hc : c ≠ '\r') (rest : List Char) :
    value? (escape c ++ rest) = (value? rest).map (units c.toNat ++ ·) := by
  unfold escape
  split
  · subst c
    exact value?_escape rfl
  · rename_i hbackslash
    split
    · subst c
      exact value?_escape rfl
    · rename_i hquote
      split
      · subst c
        exact value?_escape rfl
      · rename_i hfeed
        exact value?_plain rest hbackslash (by simp [hquote, hfeed, hc])

/-- **What is read from a body that has been written**: the text, unless there is a return in it. -/
theorem value?_body (cs : List Char) :
    value? (body cs) = if '\r' ∈ cs then none else some (unitsOf cs) := by
  induction cs with
  | nil => rw [body_nil, value?, if_neg List.not_mem_nil]; rfl
  | cons c rest ih =>
    rw [body_cons]
    by_cases hc : c = '\r'
    · subst hc
      rw [if_pos List.mem_cons_self]
      exact value?_return _
    · rw [value?_escape_append hc, ih]
      by_cases hrest : '\r' ∈ rest
      · rw [if_pos hrest, if_pos (List.mem_cons_of_mem _ hrest), Option.map_none]
      · rw [if_neg hrest, if_neg (by simp [hrest, Ne.symm hc]), Option.map_some]
        rfl

/-! ## Backslashes that wait -/

/-- Whether a backslash waits for what it escapes, when some characters have been read. -/
def waiting (l : List Char) : Bool := l.foldl (fun w c => !w && c == '\\') false

theorem waiting_append {l : List Char} (h : waiting l = false) (r : List Char) :
    waiting (l ++ r) = waiting r := by
  unfold waiting at h ⊢
  rw [List.foldl_append, h]

theorem waiting_escape (c : Char) : waiting (escape c) = false := by
  unfold escape
  split
  · rfl
  · split
    · rfl
    · split
      · rfl
      · simp_all [waiting]

theorem waiting_body (cs : List Char) : waiting (body cs) = false := by
  induction cs with
  | nil => rfl
  | cons c rest ih => rw [body_cons, waiting_append (waiting_escape c), ih]

/-- The quotes in what a character is written as are escaped. -/
theorem waiting_of_quote_escape {c : Char} {before after : List Char}
    (h : escape c = before ++ '\'' :: after) : waiting before = true := by
  unfold escape at h
  split at h
  · rcases before with _ | ⟨a, _ | ⟨b, before⟩⟩ <;> simp_all
  · split at h
    · rcases before with _ | ⟨a, _ | ⟨b, before⟩⟩ <;> simp_all [waiting, eq_comm]
    · split at h
      · rcases before with _ | ⟨a, _ | ⟨b, before⟩⟩ <;> simp_all
      · rcases before with _ | ⟨a, before⟩ <;> simp_all

/-- **Every quote in a body is escaped.** -/
theorem waiting_of_quote_body {cs before after : List Char}
    (h : body cs = before ++ '\'' :: after) : waiting before = true := by
  induction cs generalizing before with
  | nil => simp at h
  | cons c rest ih =>
    rw [body_cons] at h
    obtain ⟨next, rfl, hnext⟩ | ⟨next, hown, hnext⟩ := List.append_eq_append_iff.mp h
    · -- the quote stands in what the other characters are written as
      rw [waiting_append (waiting_escape c)]
      exact ih hnext
    · cases next with
      | nil =>
        rw [List.append_nil] at hown
        rw [List.nil_append] at hnext
        have hempty : waiting [] = true := ih hnext.symm
        cases hempty
      | cons q next =>
        obtain ⟨rfl, -⟩ := List.cons.inj hnext
        exact waiting_of_quote_escape hown

theorem feed_notMem_body (cs : List Char) : '\n' ∉ body cs := by
  intro h
  obtain ⟨c, -, hc⟩ := List.mem_flatMap.mp h
  unfold escape at hc
  split at hc
  · simp at hc
  · split at hc
    · simp at hc
    · split at hc
      · simp at hc
      · rename_i hfeed
        exact hfeed (List.mem_singleton.mp hc).symm

/-! ## Texts as strings -/

/-- No character is one of the halves that stand for a character beyond the first plane. -/
theorem toNat_cases (c : Char) :
    c.toNat < 0xD800 ∨ 0xDFFF < c.toNat ∧ c.toNat < 0x110000 := c.valid

theorem units_append_inj {c d : Char} {l r : List Nat}
    (h : units c.toNat ++ l = units d.toNat ++ r) : c = d ∧ l = r := by
  have hc := toNat_cases c
  have hd := toNat_cases d
  have hsame : c.toNat = d.toNat ∧ l = r := by
    unfold units at h
    split at h <;> split at h <;>
      simp only [List.cons_append, List.nil_append, List.cons.injEq] at h
    · exact h
    · omega
    · omega
    · obtain ⟨hhigh, hlow, hrest⟩ := h
      exact ⟨by omega, hrest⟩
  exact ⟨Char.toNat_inj.mp hsame.1, hsame.2⟩

theorem units_ne_nil (n : Nat) : units n ≠ [] := by
  unfold units
  split <;> exact List.cons_ne_nil _ _

/-- Different texts are different strings. -/
theorem unitsOf_injective : Function.Injective unitsOf := by
  intro l
  induction l with
  | nil =>
    intro r h
    cases r with
    | nil => rfl
    | cons d r => exact absurd (List.append_eq_nil_iff.mp h.symm).1 (units_ne_nil _)
  | cons c l ih =>
    intro r h
    cases r with
    | nil => exact absurd (List.append_eq_nil_iff.mp h).1 (units_ne_nil _)
    | cons d r =>
      obtain ⟨rfl, hrest⟩ := units_append_inj (c := c) (d := d) h
      rw [ih hrest]

/-- **A literal is well formed and read back.**  Between its quotes stands what three replacements
in the text make; there is no line feed in it, every quote in it is escaped, and no backslash waits
at its end.  The string that it stands for is the text, and so no other text has this literal. -/
theorem text_read_back (v : String) (hreturn : '\r' ∉ v.toList) :
    ∃ inside, (ofText v).toList = '\'' :: inside ++ ['\''] ∧
      inside = replaced '\n' ['\\', 'n']
        (replaced '\'' ['\\', '\''] (replaced '\\' ['\\', '\\'] v.toList)) ∧
      '\n' ∉ inside ∧
      (∀ before after, inside = before ++ '\'' :: after → waiting before = true) ∧
      waiting inside = false ∧
      value? inside = some (unitsOf v.toList) ∧
      ∀ w : String, '\r' ∉ w.toList → ofText w = ofText v → w = v := by
  have hvalue : ∀ w : String, '\r' ∉ w.toList → value? (body w.toList) = some (unitsOf w.toList) :=
    fun w hw => by rw [value?_body, if_neg hw]
  refine ⟨body v.toList, String.toList_ofList, body_eq_replaced _, feed_notMem_body _,
    fun before after h => waiting_of_quote_body h, waiting_body _, hvalue v hreturn,
    fun w hw hsame => ?_⟩
  have hbody : body w.toList = body v.toList :=
    List.append_cancel_right (List.cons.inj (String.ofList_inj.mp hsame)).2
  have hstrings := hvalue w hw
  rw [hbody, hvalue v hreturn] at hstrings
  exact String.toList_inj.mp (unitsOf_injective (Option.some.inj hstrings)).symm

/-- The literal of a text with all three escapes next to each other. -/
theorem mixed_text_read_back :
    '\r' ∉ "a\\'\n\\n".toList ∧
      ∃ inside, (ofText "a\\'\n\\n").toList = '\'' :: inside ++ ['\''] ∧
        value? inside = some (unitsOf "a\\'\n\\n".toList) := by
  obtain ⟨inside, hliteral, -, -, -, -, hvalue, -⟩ :=
    text_read_back "a\\'\n\\n" (by decide)
  exact ⟨by decide, inside, hliteral, hvalue⟩

end Literal
end Transplant
