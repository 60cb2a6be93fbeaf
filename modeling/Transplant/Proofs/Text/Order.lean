import Transplant.Text.Basic
import Mathlib.Data.List.Nodup

/-!
# Listings of texts

Texts are put in order by code points.  A listing is sorted, and if nothing occurs twice it is strictly
increasing.  A strictly increasing list is known by its members alone: where they came from, and in
which order, cannot be told from it.

* `Text.Increasing`: the texts follow one another in code point order, each once
* `Text.increasing_sort`: what sorting makes of a list without repetitions
* `Text.Increasing.eq_of_mem_iff`: the members tell the list
-/

namespace Transplant
namespace Text

/-! ## The order -/

theorem notAfter_iff {a b : String} : notAfter a b = true ↔ ¬b.toList < a.toList := by
  rw [notAfter, before, Bool.not_eq_true', decide_eq_false_iff_not]

theorem notAfter_refl (a : String) : notAfter a a = true := by
  rw [notAfter_iff, List.not_lt]
  exact List.le_refl _

theorem notAfter_trans {a b c : String} (hab : notAfter a b = true) (hbc : notAfter b c = true) :
    notAfter a c = true := by
  rw [notAfter_iff, List.not_lt] at *
  exact List.le_trans hab hbc

theorem notAfter_total (a b : String) : (notAfter a b || notAfter b a) = true := by
  rw [Bool.or_eq_true, notAfter_iff, notAfter_iff, List.not_lt, List.not_lt]
  exact List.le_total _ _

theorem notAfter_antisymm {a b : String} (hab : notAfter a b = true) (hba : notAfter b a = true) :
    a = b := by
  rw [notAfter_iff, List.not_lt] at *
  exact String.toList_inj.mp (List.le_antisymm hab hba)

/-! ## Each text once -/

theorem mem_distinct_iff {l : List String} {s : String} : s ∈ distinct l ↔ s ∈ l := by
  have hfold : ∀ (l seen : List String),
      s ∈ l.foldl (fun seen s => if seen.contains s then seen else seen ++ [s]) seen ↔
        s ∈ seen ∨ s ∈ l := by
    intro l
    induction l with
    | nil => simp
    | cons first rest ih =>
      intro seen
      rw [List.foldl_cons, ih, List.mem_cons, ← or_assoc]
      refine or_congr_left ?_
      split
      · rename_i hold
        refine ⟨.inl, fun h => h.elim id ?_⟩
        rintro rfl
        exact List.contains_iff_mem.mp hold
      · rw [List.mem_append, List.mem_singleton]
  exact (hfold l []).trans (or_iff_right List.not_mem_nil)

theorem nodup_distinct (l : List String) : (distinct l).Nodup := by
  have hfold : ∀ (l seen : List String), seen.Nodup →
      (l.foldl (fun seen s => if seen.contains s then seen else seen ++ [s]) seen).Nodup := by
    intro l
    induction l with
    | nil => exact fun seen hseen => hseen
    | cons s rest ih =>
      intro seen hseen
      rw [List.foldl_cons]
      refine ih _ ?_
      split
      · exact hseen
      · rename_i hnew
        rw [List.contains_iff_mem] at hnew
        rw [← List.concat_eq_append]
        exact List.Nodup.concat hnew hseen
  exact hfold l [] List.nodup_nil

/-! ## Increasing lists -/

/-- The texts follow one another in code point order, and none occurs twice. -/
def Increasing (l : List String) : Prop := l.Pairwise (· < ·)

theorem Increasing.nodup {l : List String} (h : Increasing l) : l.Nodup :=
  List.Pairwise.imp (fun hlt => String.ne_of_lt hlt) h

@[simp] theorem mem_sort {l : List String} {s : String} : s ∈ sort l ↔ s ∈ l := List.mem_mergeSort

/-- A list without repetitions is strictly increasing once it is sorted. -/
theorem increasing_sort {l : List String} (h : l.Nodup) : Increasing (sort l) := by
  have hsorted : (sort l).Pairwise fun a b => notAfter a b = true :=
    @List.pairwise_mergeSort String notAfter (fun _ _ _ => notAfter_trans) notAfter_total l
  have hnodup : (sort l).Nodup := (List.mergeSort_perm l notAfter).nodup_iff.mpr h
  refine (hsorted.and hnodup).imp fun {a b} ⟨hle, hne⟩ => ?_
  show a.toList < b.toList
  by_contra hlt
  exact hne (notAfter_antisymm hle (notAfter_iff.mpr hlt))

/-- **A strictly increasing list is known by its members.** -/
theorem Increasing.eq_of_mem_iff {l l' : List String} (h : Increasing l) (h' : Increasing l')
    (hmem : ∀ s, s ∈ l ↔ s ∈ l') : l = l' := by
  have hperm : l.Perm l' := (List.perm_ext_iff_of_nodup h.nodup h'.nodup).mpr hmem
  exact hperm.eq_of_pairwise (fun a b _ _ hab hba => absurd hba (String.lt_asymm hab)) h h'

end Text
end Transplant
