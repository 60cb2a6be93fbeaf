import Transplant.Data.Json
import Mathlib.Data.List.Infix

/-!
# When the text of a JSON document is too long

Reading a JSON document fails in two ways.  The text may break the rules of the format, and this is
expected.  Or it may have a whole number with more digits than can be read.  This file says when the
second can happen at all: there are more than `Integer.maxDigits` digits in a row in the text.

## Readers that stay within a text

Every reader takes something off the front of a text, and the next one goes on with what is left.
`Within` says of a result that what is left is an end of the text, and that the digits, if there are
too many of them, stand in the text.  It is kept when readers follow one another (`Within.bind`), so
that one lemma for each reader is enough, and the readers of values, elements and members are dealt
with in one induction over the fuel.

* `Json.Within`: what a reader leaves, and where the digits are that are too many
* `Json.overlong_of_parse`: a text that is too long has too many digits in a row
-/

namespace Transplant
namespace Json

/-- The text has more digits in a row than a whole number may have. -/
def Overlong (l : List Char) : Prop :=
  ∃ run, run <:+: l ∧ Integer.maxDigits < run.length ∧ ∀ c ∈ run, Text.isDigit c = true

theorem Overlong.of_suffix {l r : List Char} (h : Overlong r) (hr : r <:+ l) : Overlong l := by
  obtain ⟨run, hrun, hlong⟩ := h
  exact ⟨run, hrun.trans hr.isInfix, hlong⟩

/-- What a reader leaves is an end of the text, and a fault that there are too many digits is found
in it. -/
def Within {α : Type} (l : List Char) : Except DataFault (α × List Char) → Prop
  | .ok r => r.2 <:+ l
  | .error .malformed => True
  | .error (.tooLong _) => Overlong l

namespace Within

variable {α β : Type} {l r : List Char} {x : Except DataFault (α × List Char)}

theorem of_suffix (h : Within r x) (hr : r <:+ l) : Within l x := by
  match x, h with
  | .ok _, h => exact List.IsSuffix.trans h hr
  | .error .malformed, _ => trivial
  | .error (.tooLong _), h => exact Overlong.of_suffix h hr

theorem bind (hx : Within l x) {f : α × List Char → Except DataFault (β × List Char)}
    (hf : ∀ a r, r <:+ l → Within r (f (a, r))) : Within l (x >>= f) := by
  match x, hx with
  | .ok (a, r), hr => exact (hf a r hr).of_suffix hr
  | .error .malformed, _ => trivial
  | .error (.tooLong _), h => exact h

theorem map (hx : Within l x) {f : α × List Char → β × List Char} (hf : ∀ p, (f p).2 = p.2) :
    Within l (x.map f) := by
  match x, hx with
  | .ok p, hp =>
    show (f p).2 <:+ l
    rw [hf]
    exact hp
  | .error .malformed, _ => trivial
  | .error (.tooLong _), h => exact h

theorem need {o : Option (α × List Char)} (h : ∀ p ∈ o, p.2 <:+ l) :
    Within l (DataFault.need o) := by
  cases o with
  | none => trivial
  | some p => exact h p rfl

end Within

/-! ## Texts and scalars -/

theorem skip_suffix (l : List Char) : skip l <:+ l := List.dropWhile_suffix _

theorem hex4?_suffix {l r : List Char} {n : Nat} (h : hex4? l = some (n, r)) : r <:+ l := by
  unfold hex4? at h
  split at h
  · rename_i a b c d rest
    simp only [Option.bind_eq_bind, Option.bind_eq_some_iff, Option.pure_def, Option.some.injEq,
      Prod.mk.injEq] at h
    obtain ⟨-, -, -, -, -, -, -, -, -, rfl⟩ := h
    exact ⟨[a, b, c, d], rfl⟩
  · cases h

theorem unit?_suffix {l r : List Char} {c : Char} (h : unit? l = some (c, r)) : r <:+ l := by
  unfold unit? at h
  obtain ⟨⟨high, rest⟩, hhigh, h⟩ := Option.bind_eq_some_iff.mp h
  have hrest := hex4?_suffix hhigh
  dsimp only at h
  split at h
  · split at h
    · rename_i tail
      split at h
      · rename_i low after hlow
        split at h
        · obtain ⟨-, rfl⟩ := Prod.mk.inj (Option.some.inj h)
          exact (hex4?_suffix hlow).trans ((List.suffix_append ['\\', 'u'] tail).trans hrest)
        · obtain ⟨-, rfl⟩ := Prod.mk.inj (Option.some.inj h)
          exact hrest
      · obtain ⟨-, rfl⟩ := Prod.mk.inj (Option.some.inj h)
        exact hrest
    · obtain ⟨-, rfl⟩ := Prod.mk.inj (Option.some.inj h)
      exact hrest
  · obtain ⟨-, rfl⟩ := Prod.mk.inj (Option.some.inj h)
    exact hrest

theorem stringBody_suffix {fuel : Nat} {l r cs : List Char}
    (h : stringBody fuel l = some (cs, r)) : r <:+ l := by
  induction fuel generalizing l cs with
  | zero => cases h
  | succ fuel ih =>
    unfold stringBody at h
    split at h
    · rename_i rest
      obtain ⟨-, rfl⟩ := Prod.mk.inj (Option.some.inj h)
      exact List.suffix_cons _ _
    · rename_i rest
      obtain ⟨⟨c, after⟩, hunit, h⟩ := Option.bind_eq_some_iff.mp h
      obtain ⟨⟨tail, _⟩, hbody, h⟩ := Option.bind_eq_some_iff.mp h
      obtain ⟨-, rfl⟩ := Prod.mk.inj (Option.some.inj h)
      exact (ih hbody).trans ((unit?_suffix hunit).trans (List.suffix_append ['\\', 'u'] rest))
    · rename_i c rest _
      obtain ⟨d, -, h⟩ := Option.bind_eq_some_iff.mp h
      obtain ⟨⟨tail, _⟩, hbody, h⟩ := Option.bind_eq_some_iff.mp h
      obtain ⟨-, rfl⟩ := Prod.mk.inj (Option.some.inj h)
      exact (ih hbody).trans (List.suffix_append ['\\', c] rest)
    · rename_i c rest _ _ _
      dsimp only at h
      split at h
      · cases h
      · obtain ⟨⟨tail, _⟩, hbody, h⟩ := Option.bind_eq_some_iff.mp h
        obtain ⟨-, rfl⟩ := Prod.mk.inj (Option.some.inj h)
        exact (ih hbody).trans (List.suffix_cons c rest)
    · cases h

theorem string?_suffix {l r : List Char} {s : String} (h : string? l = some (s, r)) : r <:+ l := by
  obtain ⟨⟨cs, _⟩, hbody, h⟩ := Option.map_eq_some_iff.mp h
  obtain ⟨-, rfl⟩ := Prod.mk.inj h
  exact stringBody_suffix hbody

theorem digits_suffix (l : List Char) : (digits l).2 <:+ l := by
  rw [digits, List.span_eq_takeWhile_dropWhile]
  exact List.dropWhile_suffix _

theorem fraction_suffix (l : List Char) : (fraction l).2 <:+ l := by
  unfold fraction
  split
  · rename_i rest
    dsimp only
    split
    · exact List.suffix_rfl
    · exact (digits_suffix rest).trans (List.suffix_cons _ _)
  · exact List.suffix_rfl

theorem exponent_suffix (l : List Char) : (exponent l).2 <:+ l := by
  fun_cases exponent l with
  | case1 => exact List.suffix_rfl
  | case2 e rest _ negative after hsign ds following hdigits =>
    have hafter : after <:+ rest := by
      split at hsign <;> obtain ⟨-, rfl⟩ := Prod.mk.inj hsign
      · exact List.suffix_cons _ _
      · exact List.suffix_cons _ _
      · exact List.suffix_rfl
    have hfollowing := digits_suffix after
    rw [hdigits] at hfollowing
    exact hfollowing.trans (hafter.trans (List.suffix_cons e rest))
  | case3 => exact List.suffix_rfl
  | case4 => exact List.suffix_rfl

/-- The digits in front of a text are too many only if the text has too many digits in a row. -/
theorem overlong_of_digits {l : List Char} {n : Nat}
    (h : DataFault.whole (digits l).1 = .error (.tooLong n)) : Overlong l := by
  rw [digits, List.span_eq_takeWhile_dropWhile] at h
  unfold DataFault.whole at h
  split at h
  · cases h
  · rename_i hlong
    refine ⟨_, (List.takeWhile_prefix _).isInfix, Nat.lt_of_not_le hlong, fun c hc => ?_⟩
    exact List.all_eq_true.mp List.all_takeWhile c hc

/-- What follows the digits of a whole number, and why there can be too many of them. -/
theorem whole_cases {l cs rest : List Char}
    (h : (match l with
      | '0' :: rest => (['0'], rest)
      | _ => digits l) = (cs, rest)) :
    rest <:+ l ∧ ∀ n, DataFault.whole cs = .error (.tooLong n) → Overlong l := by
  split at h
  · obtain ⟨rfl, rfl⟩ := Prod.mk.inj h
    exact ⟨List.suffix_cons _ _, fun n hn => by cases hn⟩
  · have hrest := digits_suffix l
    rw [h] at hrest
    refine ⟨hrest, fun n hn => overlong_of_digits (n := n) ?_⟩
    rw [h]
    exact hn

theorem within_unsigned (negative : Bool) (l : List Char) : Within l (unsigned negative l) := by
  fun_cases unsigned negative l with
  | case1 => trivial
  | case2 cs rest hwhole go =>
    obtain ⟨hrest, hlong⟩ := whole_cases hwhole
    have hleft : (exponent (fraction rest).2).2 <:+ l :=
      (exponent_suffix _).trans ((fraction_suffix rest).trans hrest)
    dsimp only [go]
    split
    · cases hn : DataFault.whole cs with
      | ok n => exact hleft
      | error fault =>
        cases fault with
        | malformed => trivial
        | tooLong n => exact hlong n hn
    · exact hleft

theorem within_scalar (l : List Char) : Within l (scalar l) := by
  unfold scalar
  split
  · exact List.drop_suffix _ _
  · split
    · rename_i rest _
      exact (within_unsigned true rest).of_suffix (List.suffix_cons _ _)
    · exact within_unsigned false _

/-! ## Values -/

theorem within_value_items_members (fuel : Nat) :
    (∀ l, Within l (value fuel l)) ∧ (∀ l, Within l (items fuel l)) ∧
      ∀ l, Within l (members fuel l) := by
  induction fuel with
  | zero => exact ⟨fun _ => trivial, fun _ => trivial, fun _ => trivial⟩
  | succ fuel ih =>
    obtain ⟨hvalue, hitems, hmembers⟩ := ih
    have hmove : ∀ {l r : List Char} {c : Char}, skip r = c :: l → l <:+ r := fun {l r c} h =>
      (List.suffix_cons c l).trans (h ▸ skip_suffix r)
    refine ⟨fun l => ?_, fun l => ?_, fun l => ?_⟩
    · unfold value
      split
      · rename_i rest
        refine Within.need fun p hp => ?_
        obtain ⟨⟨s, after⟩, hstring, rfl⟩ := Option.map_eq_some_iff.mp hp
        exact (string?_suffix hstring).trans (List.suffix_cons _ _)
      · rename_i rest
        split
        · rename_i after hskip
          exact (hmove hskip).trans (List.suffix_cons _ _)
        · have hinside := (hitems (skip rest)).of_suffix (skip_suffix rest)
          exact (hinside.of_suffix (List.suffix_cons _ rest)).map fun _ => rfl
      · rename_i c rest _ _
        split
        · split
          · rename_i after hskip
            exact (hmove hskip).trans (List.suffix_cons _ _)
          · have hinside := (hmembers (skip rest)).of_suffix (skip_suffix rest)
            exact (hinside.of_suffix (List.suffix_cons _ rest)).map fun _ => rfl
        · exact within_scalar _
      · trivial
    · unfold items
      refine (hvalue l).bind fun v rest _ => ?_
      dsimp only
      split
      · rename_i after hskip
        exact hmove hskip
      · rename_i after hskip
        have hnext := (hitems (skip after)).of_suffix (skip_suffix after)
        exact (hnext.of_suffix (hmove hskip)).bind fun _ _ _ => List.suffix_rfl
      · trivial
    · unfold members
      split
      · rename_i rest
        refine Within.of_suffix ?_ (List.suffix_cons _ rest)
        refine (Within.need fun p hp => string?_suffix hp).bind fun key rest _ => ?_
        dsimp only
        split
        · rename_i after hskip
          refine Within.of_suffix ?_ ((skip_suffix after).trans (hmove hskip))
          refine (hvalue _).bind fun v rest _ => ?_
          dsimp only
          split
          · rename_i after hskip
            exact hmove hskip
          · rename_i after hskip
            have hnext := (hmembers (skip after)).of_suffix (skip_suffix after)
            exact (hnext.of_suffix (hmove hskip)).bind fun _ _ _ => List.suffix_rfl
          · trivial
        · trivial
      · trivial

/-- **A document that is too long has too many digits in a row.** -/
theorem overlong_of_parse {text : String} {n : Nat} (h : parse text = .error (.tooLong n)) :
    Overlong text.toList := by
  unfold parse at h
  split at h
  · cases h
  · rename_i c rest htext
    split at h
    · cases h
    · have hvalue := (within_value_items_members (2 * (c :: rest).length + 2)).1 (skip (c :: rest))
      rw [htext]
      refine Overlong.of_suffix ?_ (skip_suffix (c :: rest))
      unfold document at h
      cases hread : value (2 * (c :: rest).length + 2) (skip (c :: rest)) with
      | error fault =>
        rw [hread] at h hvalue
        obtain rfl := Except.error.inj h
        exact hvalue
      | ok r =>
        rw [hread] at h
        exfalso
        dsimp only [bind, Except.bind] at h
        split at h <;> cases h

end Json
end Transplant
