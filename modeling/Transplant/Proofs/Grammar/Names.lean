import Transplant.Grammar.Parse

/-!
# How names are read

A name is a run of letters, digits and the like, with escapes in between, and a tag may have hyphens
in its name.  No slash stands in any of these, so none stands in the text of a leaf that is read as
a name.

* `Grammar.Slashless`: a beginning of a source without slashes
* `Grammar.Lexeme.slashless_of_scan`: names are read without slashes
* `Grammar.slash_notMem_leaf`: the text of a leaf is made of what has been read for it
-/

namespace Transplant
namespace Grammar

open Utf8 (Glyph)

/-! ## Names without slashes -/

/-- There is no slash among the first glyphs. -/
def Slashless (n : Nat) (input : List Glyph) : Prop := ∀ g ∈ input.take n, g.char ≠ '/'

theorem slashless_zero (input : List Glyph) : Slashless 0 input := nofun

theorem slashless_succ_iff {n : Nat} {g : Glyph} {rest : List Glyph} :
    Slashless (n + 1) (g :: rest) ↔ g.char ≠ '/' ∧ Slashless n rest := by
  rw [Slashless, List.take_succ_cons, List.forall_mem_cons]
  rfl

theorem Slashless.add {n m : Nat} {input : List Glyph} (hn : Slashless n input)
    (hm : Slashless m (input.drop n)) : Slashless (n + m) input := by
  intro g hg
  rw [List.take_add, List.mem_append] at hg
  exact hg.elim (hn g) (hm g)

theorem slashless_run {p : Char → Bool} (hp : p '/' = false) (input : List Glyph) :
    Slashless (run p input).length input := by
  induction input with
  | nil => exact nofun
  | cons g rest ih =>
    rw [run]
    split
    · rename_i hg
      refine slashless_succ_iff.mpr ⟨fun hslash => ?_, ih⟩
      rw [hslash, hp] at hg
      cases hg
    · exact slashless_zero _

theorem slashless_of_leads {c : Char} (hc : c ≠ '/') {input : List Glyph}
    (h : leads [c] input = true) : Slashless 1 input := by
  cases input with
  | nil => exact nofun
  | cons g rest =>
    rw [leads, Bool.and_eq_true, beq_iff_eq] at h
    exact slashless_succ_iff.mpr ⟨h.1 ▸ hc, slashless_zero _⟩

theorem slashless_codePoint (rest : List Glyph) : Slashless (codePointLength rest) rest := by
  have hhex : isHex '/' = false := by decide
  unfold codePointLength
  split
  · rename_i hopen
    have hdigits := slashless_run hhex (rest.drop 1)
    dsimp only
    split
    · rename_i hclose
      rw [Bool.and_eq_true, Nat.add_comm] at hclose
      have hbefore := (slashless_of_leads (by decide) hopen).add hdigits
      have hall := hbefore.add (slashless_of_leads (by decide) hclose.2)
      rwa [Nat.add_right_comm, Nat.add_comm] at hall
    · exact slashless_zero _
  · split
    · rename_i hfour
      have hdigits := slashless_run hhex (rest.take 4)
      rw [beq_iff_eq.mp hfour, Slashless, List.take_take] at hdigits
      exact hdigits
    · exact slashless_zero _

theorem slashless_nameEscape (input : List Glyph) :
    Slashless (nameEscapeLength input) input := by
  unfold nameEscapeLength
  split
  · rename_i b u rest
    split
    · rename_i hmarks
      rw [Bool.and_eq_true, beq_iff_eq, beq_iff_eq] at hmarks
      split
      · exact slashless_zero _
      · refine slashless_succ_iff.mpr ⟨by rw [hmarks.1]; decide, ?_⟩
        exact slashless_succ_iff.mpr ⟨by rw [hmarks.2]; decide, slashless_codePoint rest⟩
    · exact slashless_zero _
  · exact slashless_zero _

theorem slashless_nameRest {pending : Nat} {input : List Glyph} (h : Slashless pending input) :
    Slashless (nameRest pending input).length input := by
  induction input generalizing pending with
  | nil => exact nofun
  | cons g rest ih =>
    unfold nameRest
    split
    · rename_i hpending
      obtain ⟨n, rfl⟩ := Nat.exists_eq_add_of_lt hpending
      rw [Nat.zero_add] at h
      obtain ⟨hg, hrest⟩ := slashless_succ_iff.mp h
      exact slashless_succ_iff.mpr ⟨hg, ih (by simpa using hrest)⟩
    · split
      · rename_i hpart
        refine slashless_succ_iff.mpr ⟨fun hslash => ?_, ih (slashless_zero _)⟩
        rw [hslash] at hpart
        exact absurd hpart (by decide)
      · have hescape := slashless_nameEscape (g :: rest)
        split
        · exact slashless_zero _
        · rename_i n hn
          rw [hn] at hescape
          obtain ⟨hg, hrest⟩ := slashless_succ_iff.mp hescape
          exact slashless_succ_iff.mpr ⟨hg, ih hrest⟩

theorem slashless_nameAt (input : List Glyph) : Slashless (nameAt input).length input := by
  unfold nameAt
  split
  · exact slashless_zero _
  · split
    · exact slashless_nameRest (slashless_zero _)
    · exact slashless_zero _

theorem slashless_hyphenated (input : List Glyph) :
    Slashless (hyphenatedLength input) input := by
  unfold hyphenatedLength
  split
  · exact slashless_zero _
  · rename_i g rest
    dsimp only
    split
    · rename_i hfirst
      split
      · have hstart : g.char ≠ '/' := by
          intro hslash
          rw [hslash] at hfirst
          exact absurd hfirst (by decide)
        rw [Nat.add_right_comm]
        refine slashless_succ_iff.mpr ⟨hstart, ?_⟩
        exact (slashless_run (by decide) rest).add (slashless_run (by decide) _)
      · exact slashless_zero _
    · exact slashless_zero _

/-- Whether a lexeme is a name. -/
def Lexeme.isName : Lexeme → Bool
  | .name _ | .tagName _ => true
  | _ => false

/-- **Names are read without slashes.** -/
theorem Lexeme.slashless_of_scan {lexeme : Lexeme} (h : lexeme.isName = true)
    {input : List Glyph} {n : Nat} (hn : lexeme.scan input = some n) : Slashless n input := by
  have hname : ∀ {barred : List (List Char)} {n : Nat},
      (if (nameAt input).isEmpty || barred.contains (nameAt input) then none
        else some (nameAt input).length) = some n → Slashless n input := by
    intro barred n hn
    split at hn
    · cases hn
    · exact Option.some.inj hn ▸ slashless_nameAt input
  unfold Lexeme.isName at h
  split at h
  · exact hname hn
  · unfold Lexeme.scan at hn
    dsimp only at hn
    split at hn
    · exact Option.some.inj hn ▸ slashless_hyphenated input
    · exact hname hn
  · cases h

/-! ## Leaves -/

theorem widthOf_cons (g : Glyph) (source : List Glyph) :
    widthOf (g :: source) = g.width + widthOf source := by
  unfold widthOf
  rw [List.foldl_cons, Nat.add_comm 0]
  exact List.foldl_hom (g.width + ·) fun n g' => Nat.add_assoc _ n g'.width

theorem offset_forward (n : Nat) (c : Cursor) :
    (Cursor.forward n c).offset = c.offset + widthOf (c.rest.take n) := by
  induction n generalizing c with
  | zero => rfl
  | succ n ih =>
    rw [Cursor.forward]
    split
    · rename_i hrest
      rw [hrest]
      rfl
    · rename_i g rest hrest
      rw [ih, hrest, List.take_succ_cons, widthOf_cons, Cursor.past, Nat.add_assoc]

/-- The characters of the first glyphs are found among these. -/
theorem mem_chars {n : Nat} {input : List Glyph} {ch : Char}
    (h : ch ∈ Cursor.chars (widthOf (input.take n)) input) :
    ∃ g ∈ input.take n, g.char = ch := by
  induction input generalizing n with
  | nil => cases h
  | cons g rest ih =>
    rw [Cursor.chars] at h
    split at h
    · cases h
    · rename_i hwidth
      cases n with
      | zero => exact absurd rfl hwidth
      | succ n =>
        rw [List.take_succ_cons, widthOf_cons, Nat.add_sub_cancel_left] at h
        rcases List.mem_cons.mp h with rfl | h
        · exact ⟨g, List.mem_cons_self, rfl⟩
        · obtain ⟨g', hg', hch⟩ := ih h
          exact ⟨g', List.mem_cons_of_mem _ hg', hch⟩

theorem slash_notMem_leaf {n : Nat} {c : Cursor} (kind : Kind) (h : Slashless n c.rest) :
    '/' ∉ (c.leafTo kind (Cursor.forward n c)).text.toList := by
  intro hmem
  rw [Cursor.leafTo, Cursor.textTo, String.toList_ofList, offset_forward,
    Nat.add_sub_cancel_left] at hmem
  obtain ⟨g, hg, hslash⟩ := mem_chars hmem
  exact h g hg hslash

end Grammar
end Transplant
