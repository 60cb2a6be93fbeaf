import Transplant.Proofs.Path.Pure

/-!
# Paths below a directory

A path may go down into a directory and leave it again further on, so whether it is below the
directory is asked of its normal form.  That of a relative piece is simple: it goes up some number
of times, and then only down (`exists_ups`).

## Leaving and coming back

A file that is put to a relative place of a directory is below the directory if its place goes down
only.  It need not do so.  A place that goes up is below the directory again if it comes down
through the very names that it has gone up by, and at the root of all it may go up as often as it
likes.  `Path.Returns` says this, and `Path.below_append_iff` that there is no other way.

* `Path.normal`, `Path.Below`: normal forms, and what is below them
* `Lexical.travel_ups`, `Lexical.travel_ups_beyond`: where going up leads
* `Path.below_append_iff`: the places whose files are below
-/

namespace Transplant
namespace Lexical

/-! ## Going up -/

/-- **What is normalized goes up first, and then down.** -/
theorem exists_ups (l : List String) :
    ∃ up names, (travel false [] l).reverse = List.replicate up ".." ++ names ∧
      ∀ n ∈ names, Named n := by
  suffices h : ∃ up names, travel false [] l = names ++ List.replicate up ".." ∧
      ∀ n ∈ names, Named n by
    obtain ⟨up, names, hl, hnames⟩ := h
    refine ⟨up, names.reverse, ?_, fun n hn => hnames n (List.mem_reverse.mp hn)⟩
    rw [hl, List.reverse_append, List.reverse_replicate]
  induction l using List.reverseRecOn with
  | nil => exact ⟨0, [], rfl, nofun⟩
  | append_singleton l p ih =>
    obtain ⟨up, names, hl, hnames⟩ := ih
    rw [travel_append, hl, travel_cons, travel_nil]
    by_cases hblank : p = "" ∨ p = "."
    · refine ⟨up, names, ?_, hnames⟩
      rcases hblank with rfl | rfl <;> simp
    · rw [not_or] at hblank
      by_cases hup : p = ".."
      · subst hup
        rcases names with _ | ⟨last, before⟩
        · -- no name is left to take the step back
          refine ⟨up + 1, [], ?_, nofun⟩
          cases up <;> simp [step, List.replicate_succ]
        · rw [List.cons_append, step_up_named (hnames last List.mem_cons_self)]
          exact ⟨up, before, rfl, fun n hn => hnames n (List.mem_cons_of_mem _ hn)⟩
      · have hnamed : Named p := ⟨hblank.1, hblank.2, hup⟩
        refine ⟨up, p :: names, step_named hnamed _ _, fun n hn => ?_⟩
        rcases List.mem_cons.mp hn with rfl | hn
        · exact hnamed
        · exact hnames n hn

/-- A place in normal form: from the root of all there is nothing to go up to. -/
theorem exists_ups_of (absolute : Bool) (l : List String) :
    ∃ up names, (travel absolute [] l).reverse = List.replicate up ".." ++ names ∧
      (∀ n ∈ names, Named n) ∧ (absolute = true → up = 0) := by
  cases absolute with
  | false =>
    obtain ⟨up, names, hl, hnames⟩ := exists_ups l
    exact ⟨up, names, hl, hnames, nofun⟩
  | true =>
    refine ⟨0, (travel true [] l).reverse, rfl, fun n hn => ?_, fun _ => rfl⟩
    rw [List.mem_reverse] at hn
    rcases travel_mem hn with h | ⟨-, hempty, hhere⟩
    · exact absurd h List.not_mem_nil
    · exact ⟨hempty, hhere, fun hup => up_notMem_travel List.not_mem_nil (hup ▸ hn)⟩

/-- Going up as often as there are names of some kind leads to what is in front of these. -/
theorem travel_ups {back : List String} (h : ∀ n ∈ back, Named n) (absolute : Bool)
    (front : List String) :
    travel absolute (front ++ back).reverse (List.replicate back.length "..") = front.reverse := by
  rw [List.reverse_append, ← List.map_const']
  exact travel_up h absolute front.reverse

/-- Going up from where there is nothing to go back to. -/
theorem travel_ups_beyond (absolute : Bool) {up : Nat} (habsolute : absolute = true → up = 0)
    (more : Nat) :
    travel absolute (List.replicate up "..") (List.replicate more "..") =
      if absolute then [] else List.replicate (up + more) ".." := by
  induction more generalizing up with
  | zero =>
    cases absolute with
    | false => rfl
    | true => rw [habsolute rfl]; rfl
  | succ more ih =>
    rw [List.replicate_succ, travel_cons]
    cases absolute with
    | true =>
      rw [habsolute rfl]
      exact ih fun _ => rfl
    | false =>
      have hstep : step false (List.replicate up "..") ".." = List.replicate (up + 1) ".." := by
        cases up <;> simp [step, List.replicate_succ]
      rw [hstep, ih fun h => by cases h]
      simp only [Bool.false_eq_true, if_false]
      congr 1
      omega

/-- Going up from a place in normal form: first by its names, then from where there are none. -/
theorem travel_ups_normal {absolute : Bool} {ups : Nat} (habsolute : absolute = true → ups = 0)
    {own : List String} (hown : ∀ n ∈ own, Named n) (up : Nat) :
    travel absolute (List.replicate ups ".." ++ own).reverse (List.replicate up "..") =
      if up ≤ own.length then (List.replicate ups ".." ++ own.take (own.length - up)).reverse
      else if absolute then [] else List.replicate (ups + (up - own.length)) ".." := by
  split
  · rename_i hle
    obtain ⟨front, back, rfl, rfl⟩ : ∃ front back, own = front ++ back ∧ up = back.length :=
      ⟨own.take (own.length - up), own.drop (own.length - up), (List.take_append_drop _ _).symm,
        by rw [List.length_drop]; omega⟩
    have hfront : (front ++ back).take ((front ++ back).length - back.length) = front := by simp
    rw [hfront, ← List.append_assoc, travel_ups fun n hn => hown n (List.mem_append_right _ hn)]
  · rename_i hlt
    obtain ⟨more, rfl⟩ := Nat.exists_eq_add_of_lt (Nat.lt_of_not_le hlt)
    rw [Nat.add_assoc, ← List.replicate_append_replicate, travel_append, travel_ups hown,
      List.reverse_replicate, travel_ups_beyond _ habsolute]
    congr 3
    omega

end Lexical

namespace Path

open Lexical

/-- The path in normal form. -/
def normal (p : Path) : Path := ⟨p.root, (travel (p.root ≠ "") [] p.parts).reverse⟩

@[simp] theorem root_normal (p : Path) : p.normal.root = p.root := rfl

/-- A path that is strictly below a directory when both are in normal form. -/
def Below (p dir : Path) : Prop :=
  ∃ names ≠ [], (∀ n ∈ names, Named n) ∧ p.normal = ⟨dir.root, dir.normal.parts ++ names⟩

/-- A way from a directory that ends at or below it: it goes up by some names of the directory and
comes down through these.  Above the root of all it may go up further. -/
def Returns (dir : Path) (way : List String) : Prop :=
  ∃ up back down, (travel false [] way).reverse = List.replicate up ".." ++ (back ++ down) ∧
    (∀ n ∈ back ++ down, Named n) ∧ back <:+ dir.normal.parts ∧
    (up = back.length ∨ (dir.root ≠ "" ∧ back = dir.normal.parts ∧ back.length ≤ up))

/-- A way that does not go up in the end. -/
theorem returns_of_notMem {dir : Path} {way : List String}
    (h : ".." ∉ (travel false [] way).reverse) : Returns dir way := by
  obtain ⟨up, names, hway, hnames⟩ := exists_ups way
  have hup : up = 0 := by
    by_contra hup
    exact h (hway ▸ List.mem_append_left _ (List.mem_replicate.mpr ⟨hup, rfl⟩))
  exact ⟨up, [], names, hway, hnames, List.nil_suffix, Or.inl hup⟩

variable {dir : Path}

/-- The normal form of what is put to a place of a directory: where the way of the place leads, and
the name. -/
theorem normal_append {way : List String} {name : String} (hname : Named name) :
    (⟨dir.root, dir.parts ++ (way ++ [name])⟩ : Path).normal.parts =
      (travel (dir.root ≠ "") dir.normal.parts.reverse way).reverse ++ [name] := by
  rw [normal, travel_append, travel_append, travel_cons, travel_nil, step_named hname,
    List.reverse_cons, normal, List.reverse_reverse]

/-- Names that are added to a directory lead below it. -/
theorem below_of_named {names : List String} (hne : names ≠ []) (hnames : ∀ n ∈ names, Named n) :
    Below ⟨dir.root, dir.parts ++ names⟩ dir := by
  refine ⟨names, hne, hnames, ?_⟩
  rw [normal, travel_append, travel_named hnames, List.reverse_append, List.reverse_reverse]
  rfl

/-- A way that returns leads to the directory and on. -/
theorem exists_of_returns {way : List String} (h : Returns dir way) :
    ∃ down, (∀ n ∈ down, Named n) ∧
      travel (dir.root ≠ "") dir.normal.parts.reverse way = (dir.normal.parts ++ down).reverse := by
  obtain ⟨up, back, down, hway, hnames, ⟨front, hfront⟩, hup⟩ := h
  have hback : ∀ n ∈ back, Named n := fun n hn => hnames n (List.mem_append_left _ hn)
  refine ⟨down, fun n hn => hnames n (List.mem_append_right _ hn), ?_⟩
  rw [← travel_normal, hway, travel_append, travel_named hnames, ← hfront]
  rcases hup with rfl | ⟨hroot, hall, hmore⟩
  · rw [travel_ups hback]
    simp [List.append_assoc]
  · -- the whole directory is left, and going up further changes nothing
    obtain rfl : front = [] := by
      have hlength := congrArg List.length (hfront.trans hall.symm)
      rw [List.length_append] at hlength
      exact List.eq_nil_of_length_eq_zero (by omega)
    obtain ⟨more, rfl⟩ := Nat.exists_eq_add_of_le hmore
    have hbeyond : travel true (List.replicate 0 "..") (List.replicate more "..") = _ :=
      travel_ups_beyond true (fun _ => rfl) more
    rw [← List.replicate_append_replicate, travel_append, travel_ups hback]
    simp only [ne_eq, hroot, not_false_eq_true, decide_true]
    simpa using hbeyond

/-- A way to a place at or below the directory returns, if the directory ends with a name. -/
theorem returns_of_travel {way down : List String}
    (hlast : ∀ last ∈ dir.normal.parts.getLast?, Named last) (hne : dir.normal.parts ≠ [])
    (h : travel (dir.root ≠ "") dir.normal.parts.reverse way =
      (dir.normal.parts ++ down).reverse) : Returns dir way := by
  obtain ⟨up, names, hway, hnames⟩ := exists_ups way
  obtain ⟨ups, own, hdir, hown, habsolute⟩ :
      ∃ ups own, dir.normal.parts = List.replicate ups ".." ++ own ∧ (∀ n ∈ own, Named n) ∧
        (decide (dir.root ≠ "") = true → ups = 0) := exists_ups_of _ dir.parts
  rw [← travel_normal, hway, travel_append, travel_named hnames, hdir,
    travel_ups_normal habsolute hown, ← List.reverse_inj, List.reverse_append, List.reverse_reverse,
    List.reverse_reverse] at h
  split at h
  · -- the way leaves some of the names of the directory
    rename_i hle
    rw [List.reverse_reverse, List.append_assoc, List.append_assoc, List.append_cancel_left_eq] at h
    have hsplit := List.take_append_drop (own.length - up) own
    have hdown : names = own.drop (own.length - up) ++ down :=
      List.append_cancel_left (h.trans (by rw [← List.append_assoc, hsplit]))
    refine ⟨up, _, down, hdown ▸ hway, hdown ▸ hnames, ?_, Or.inl ?_⟩
    · rw [hdir]
      exact (List.drop_suffix _ own).trans (List.suffix_append _ own)
    · rw [List.length_drop]
      omega
  · split at h
    · -- the directory is left as a whole, at the root of all
      rename_i hroot
      rw [habsolute hroot, List.replicate_zero, List.nil_append, List.reverse_nil,
        List.nil_append] at h
      rw [habsolute hroot, List.replicate_zero, List.nil_append] at hdir
      refine ⟨_, own, down, h ▸ hway, h ▸ hnames, hdir ▸ List.suffix_refl own, Or.inr ?_⟩
      exact ⟨of_decide_eq_true hroot, hdir.symm, by omega⟩
    · -- a place further up is no place below the directory
      exfalso
      obtain ⟨first, rest, rfl⟩ : ∃ first rest, own = first :: rest := by
        refine List.exists_cons_of_ne_nil fun hnil => ?_
        rw [hnil, List.append_nil] at hdir
        have hups : ups ≠ 0 := by
          rintro rfl
          exact hne hdir
        refine (hlast ".." ?_).ne_up rfl
        rw [hdir, List.getLast?_replicate, if_neg hups]
        rfl
      obtain ⟨more, hmore⟩ : ∃ more, up - (first :: rest).length = more + 1 :=
        Nat.exists_eq_succ_of_ne_zero (by omega)
      rw [hmore, List.reverse_replicate, ← List.replicate_append_replicate, List.append_assoc,
        List.append_assoc, List.append_cancel_left_eq, List.replicate_succ, List.cons_append,
        List.cons_append, List.cons.injEq] at h
      exact (hown first List.mem_cons_self).ne_up h.1.symm

/-- **A file is below a directory that it is put to just if its way returns there.**  The directory
ends with a name in normal form. -/
theorem below_append_iff {way : List String} {name : String} (hname : Named name)
    (hlast : ∃ above last, dir.normal.parts = above ++ [last] ∧ Named last) :
    Below ⟨dir.root, dir.parts ++ (way ++ [name])⟩ dir ↔ Returns dir way := by
  obtain ⟨above, last, hdir, hnamed⟩ := hlast
  constructor
  · rintro ⟨names, hne, hnames, hnormal⟩
    have hparts := congrArg Path.parts hnormal
    obtain ⟨down, n, rfl⟩ : ∃ down n, names = down ++ [n] :=
      ⟨names.dropLast, names.getLast hne, (List.dropLast_concat_getLast hne).symm⟩
    rw [normal_append hname, ← List.append_assoc] at hparts
    have htravel : travel (dir.root ≠ "") dir.normal.parts.reverse way =
        (dir.normal.parts ++ down).reverse := by
      rw [← List.reverse_inj, List.reverse_reverse]
      exact (List.append_inj' hparts rfl).1
    exact returns_of_travel (by simp [hdir, hnamed]) (by simp [hdir]) htravel
  · intro h
    obtain ⟨down, hdown, htravel⟩ := exists_of_returns h
    refine ⟨down ++ [name], by simp, fun n hn => ?_, ?_⟩
    · rcases List.mem_append.mp hn with hn | hn
      · exact hdown n hn
      · exact List.mem_singleton.mp hn ▸ hname
    · have hparts : (⟨dir.root, dir.parts ++ (way ++ [name])⟩ : Path).normal.parts = _ :=
        normal_append hname
      rw [htravel, List.reverse_reverse, List.append_assoc] at hparts
      rw [← hparts]
      rfl

end Path
end Transplant
