import Transplant.Path.Lexical
import Mathlib.Data.List.Induction

/-!
# Travelling along written paths

A normalized path is what is left of a journey: its components are taken one by one, `.` and empty
ones stay, `..` goes back if there is somewhere to go back to.  `travel` is that journey from any
place, given last component first, and everything about `normalize`, `join`, `parent` and `relative`
is a fact about it.

## Where journeys may be cut

Journeys can be cut anywhere (`travel_append`), and a relative piece may be normalized on its own
before it is travelled (`travel_normal`).  The second needs care: normalizing a piece keeps the `..`
in front that its start would have to answer for, and drops only those that the piece answers for
itself.  That is why `relative` may work on normalized components, and why its answer can be used
from any directory.

* `components_join`, `components_normalize`: the pieces of a journey
* `travel_way`: the way from a directory to a path leads there
* `normalize_eq_iff`: which texts are normalized alike
-/

namespace Transplant
namespace Text

theorem splitList_ne_nil (sep : Char) (l : List Char) : splitList sep l ≠ [] := by
  cases l with
  | nil => simp [splitList]
  | cons c rest =>
    unfold splitList
    split
    · simp
    · split <;> simp

theorem splitList_append_sep (sep : Char) (a b : List Char) :
    splitList sep (a ++ sep :: b) = splitList sep a ++ splitList sep b := by
  induction a with
  | nil => simp [splitList]
  | cons c rest ih =>
    rw [List.cons_append, splitList, splitList, ih]
    split
    · rfl
    · rcases h : splitList sep rest with _ | ⟨part, parts⟩
      · exact absurd h (splitList_ne_nil sep rest)
      · rfl

theorem splitList_of_notMem {sep : Char} {l : List Char} (h : sep ∉ l) : splitList sep l = [l] := by
  induction l with
  | nil => rfl
  | cons c rest ih =>
    rw [List.mem_cons, not_or] at h
    rw [splitList, if_neg (Ne.symm h.1), ih h.2]

theorem splitAll_append_slash (a b : String) :
    splitAll '/' (a ++ "/" ++ b) = splitAll '/' a ++ splitAll '/' b := by
  unfold splitAll
  rw [← List.map_append, ← splitList_append_sep]
  simp

theorem splitAll_of_notMem {s : String} (h : '/' ∉ s.toList) : splitAll '/' s = [s] := by
  unfold splitAll
  rw [splitList_of_notMem h, List.map_singleton, String.ofList_toList]

@[simp] theorem splitAll_empty : splitAll '/' "" = [""] := rfl

theorem join_cons_cons (sep p q : String) (rest : List String) :
    join sep (p :: q :: rest) = p ++ sep ++ join sep (q :: rest) := rfl

theorem splitAll_join : ∀ {parts : List String}, parts ≠ [] → (∀ p ∈ parts, '/' ∉ p.toList) →
    splitAll '/' (join "/" parts) = parts
  | [], h, _ => absurd rfl h
  | [p], _, h => splitAll_of_notMem (h p List.mem_cons_self)
  | p :: q :: rest, _, h => by
    rw [join_cons_cons, splitAll_append_slash, splitAll_of_notMem (h p List.mem_cons_self),
      splitAll_join (List.cons_ne_nil q rest) fun r hr => h r (List.mem_cons_of_mem p hr),
      List.singleton_append]

theorem notMem_of_mem_splitList {sep : Char} {l : List Char} :
    ∀ part ∈ splitList sep l, sep ∉ part := by
  induction l with
  | nil => simp [splitList]
  | cons c rest ih =>
    intro part hpart
    unfold splitList at hpart
    split at hpart
    · rcases List.mem_cons.mp hpart with rfl | h
      · exact List.not_mem_nil
      · exact ih part h
    · rename_i hc
      split at hpart
      · rw [List.mem_singleton] at hpart
        rw [hpart, List.mem_singleton]
        exact fun h => hc h.symm
      · rename_i first parts hsplit
        rw [hsplit] at ih
        rcases List.mem_cons.mp hpart with rfl | h
        · rw [List.mem_cons, not_or]
          exact ⟨fun h => hc h.symm, ih first List.mem_cons_self⟩
        · exact ih part (List.mem_cons_of_mem _ h)

theorem slash_notMem_of_mem_splitAll {s part : String} (h : part ∈ splitAll '/' s) :
    '/' ∉ part.toList := by
  obtain ⟨l, hl, rfl⟩ := List.mem_map.mp h
  rw [String.toList_ofList]
  exact notMem_of_mem_splitList l hl

/-- A text whose last part is not empty, with something without a slash behind it. -/
theorem splitAll_append_of_notMem {s tail : String} (htail : '/' ∉ tail.toList) :
    ∃ before last, splitAll '/' s = before ++ [last] ∧
      splitAll '/' (s ++ tail) = before ++ [last ++ tail] := by
  suffices h : ∀ l : List Char, ∃ before last, splitList '/' l = before ++ [last] ∧
      splitList '/' (l ++ tail.toList) = before ++ [last ++ tail.toList] by
    obtain ⟨before, last, h₁, h₂⟩ := h s.toList
    refine ⟨before.map String.ofList, String.ofList last, ?_, ?_⟩
    · rw [splitAll, h₁, List.map_append, List.map_singleton]
    · rw [splitAll, String.toList_append, h₂, List.map_append, List.map_singleton,
        String.ofList_append, String.ofList_toList]
  intro l
  induction l with
  | nil => exact ⟨[], [], rfl, by simpa using splitList_of_notMem htail⟩
  | cons c rest ih =>
    obtain ⟨before, last, h₁, h₂⟩ := ih
    by_cases hc : c = '/'
    · exact ⟨[] :: before, last, by simp [splitList, hc, h₁], by simp [splitList, hc, h₂]⟩
    · rcases before with _ | ⟨first, before⟩
      · exact ⟨[], c :: last, by simp [splitList, hc, h₁], by simp [splitList, hc, h₂]⟩
      · exact ⟨(c :: first) :: before, last, by simp [splitList, hc, h₁],
          by simp [splitList, hc, h₂]⟩

end Text

namespace Lexical

/-! ## Journeys -/

/-- Where one gets from a place, given last component first, by taking some components. -/
def travel (absolute : Bool) (start : List String) (parts : List String) : List String :=
  parts.foldl (step absolute) start

@[simp] theorem travel_nil (absolute : Bool) (start : List String) :
    travel absolute start [] = start := rfl

@[simp] theorem travel_cons (absolute : Bool) (start : List String) (p : String)
    (rest : List String) :
    travel absolute start (p :: rest) = travel absolute (step absolute start p) rest := rfl

theorem travel_append (absolute : Bool) (start : List String) (l m : List String) :
    travel absolute start (l ++ m) = travel absolute (travel absolute start l) m :=
  List.foldl_append

/-- A component that leads one step further: neither empty nor made of dots only. -/
structure Named (p : String) : Prop where
  ne_empty : p ≠ ""
  ne_here : p ≠ "."
  ne_up : p ≠ ".."

instance (p : String) : Decidable (Named p) :=
  decidable_of_iff (p ≠ "" ∧ p ≠ "." ∧ p ≠ "..")
    ⟨fun h => ⟨h.1, h.2.1, h.2.2⟩, fun h => ⟨h.ne_empty, h.ne_here, h.ne_up⟩⟩

theorem named_of_length {p : String} (h : 2 < p.toList.length) : Named p := by
  constructor <;> rintro rfl <;> exact absurd h (by decide)

theorem step_named {p : String} (h : Named p) (absolute : Bool) (done : List String) :
    step absolute done p = p :: done := by
  simp [step, h.ne_empty, h.ne_here, h.ne_up]

theorem step_up_named {p : String} (h : Named p) (absolute : Bool) (done : List String) :
    step absolute (p :: done) ".." = done := by
  simp [step, h.ne_up]

@[simp] theorem step_empty (absolute : Bool) (done : List String) :
    step absolute done "" = done := by
  simp [step]

@[simp] theorem step_here (absolute : Bool) (done : List String) :
    step absolute done "." = done := by
  simp [step]

theorem travel_named {l : List String} (h : ∀ p ∈ l, Named p) (absolute : Bool)
    (start : List String) : travel absolute start l = l.reverse ++ start := by
  induction l generalizing start with
  | nil => rfl
  | cons p rest ih =>
    rw [travel_cons, step_named (h p List.mem_cons_self),
      ih fun q hq => h q (List.mem_cons_of_mem p hq), List.reverse_cons, List.append_assoc,
      List.singleton_append]

/-- Going up as often as one has gone down leads back. -/
theorem travel_up {u : List String} (h : ∀ p ∈ u, Named p) (absolute : Bool)
    (start : List String) :
    travel absolute (u.reverse ++ start) (u.map fun _ => "..") = start := by
  induction u using List.reverseRecOn with
  | nil => rfl
  | append_singleton l p ih =>
    rw [List.reverse_append, List.reverse_singleton, List.singleton_append, List.map_append,
      List.map_singleton]
    have hcomm : (l.map fun _ => "..") ++ [".."] = ".." :: l.map fun _ => ".." := by
      rw [List.map_const', ← List.replicate_succ', List.replicate_succ]
    rw [hcomm, travel_cons, List.cons_append, step_up_named (h p (by simp))]
    exact ih fun q hq => h q (List.mem_append_left _ hq)

/-! ## Normalized pieces -/

theorem step_mem {absolute : Bool} {done : List String} {p q : String}
    (h : q ∈ step absolute done p) : q ∈ done ∨ (q = p ∧ p ≠ "" ∧ p ≠ ".") := by
  unfold step at h
  split at h
  · exact Or.inl h
  · rename_i hblank
    simp only [Bool.or_eq_true, decide_eq_true_eq, not_or] at hblank
    split at h
    · rename_i hup
      split at h
      · split at h
        · simp at h
        · rw [List.mem_singleton] at h
          exact Or.inr ⟨h.trans hup.symm, hblank⟩
      · split at h
        · rcases List.mem_cons.mp h with h | h
          · exact Or.inr ⟨h.trans hup.symm, hblank⟩
          · exact Or.inl h
        · exact Or.inl (List.mem_cons_of_mem _ h)
    · rcases List.mem_cons.mp h with h | h
      · exact Or.inr ⟨h, hblank⟩
      · exact Or.inl h

/-- Every component of a journey's end was there at the start or is a component that counts. -/
theorem travel_mem {absolute : Bool} {l : List String} {start : List String} {q : String}
    (h : q ∈ travel absolute start l) : q ∈ start ∨ (q ∈ l ∧ q ≠ "" ∧ q ≠ ".") := by
  induction l generalizing start with
  | nil => exact Or.inl h
  | cons p rest ih =>
    rcases ih h with h | ⟨h, hq⟩
    · rcases step_mem h with h | ⟨rfl, hq⟩
      · exact Or.inl h
      · exact Or.inr ⟨List.mem_cons_self, hq⟩
    · exact Or.inr ⟨List.mem_cons_of_mem p h, hq⟩

/-- A relative piece may be normalized before it is travelled. -/
theorem travel_normal (absolute : Bool) (start : List String) (l : List String) :
    travel absolute start (travel false [] l).reverse = travel absolute start l := by
  induction l using List.reverseRecOn with
  | nil => rfl
  | append_singleton l p ih =>
    rw [travel_append, travel_append, ← ih]
    have hcounts : ∀ q ∈ travel false [] l, q ≠ "" ∧ q ≠ "." := by
      intro q hq
      rcases travel_mem hq with h | h
      · exact absurd h (List.not_mem_nil)
      · exact h.2
    generalize travel false [] l = done at hcounts ⊢
    show travel absolute start (step false done p).reverse =
      step absolute (travel absolute start done.reverse) p
    by_cases hblank : p = "" ∨ p = "."
    · rcases hblank with rfl | rfl <;> simp
    · rw [not_or] at hblank
      by_cases hup : p = ".."
      · subst hup
        rcases done with _ | ⟨last, before⟩
        · rfl
        · by_cases hlast : last = ".."
          · have hkeep : step false (last :: before) ".." = ".." :: last :: before := by
              simp [step, hlast]
            rw [hkeep, List.reverse_cons, travel_append]
            rfl
          · -- the last component takes the `..`, here and at the start of the journey
            have hnamed : Named last := ⟨(hcounts last List.mem_cons_self).1,
              (hcounts last List.mem_cons_self).2, hlast⟩
            rw [step_up_named hnamed, List.reverse_cons, travel_append]
            show _ = step absolute (step absolute _ last) ".."
            rw [step_named hnamed, step_up_named hnamed]
      · have hnamed : Named p := ⟨hblank.1, hblank.2, hup⟩
        rw [step_named hnamed, List.reverse_cons, travel_append, step_named hnamed]
        show step absolute _ p = _
        rw [step_named hnamed]

/-! ## Ways between two places -/

theorem diverge_spec (l m : List String) :
    ∃ common, l = common ++ (diverge l m).1 ∧ m = common ++ (diverge l m).2 := by
  induction l generalizing m with
  | nil => exact ⟨[], by simp [diverge]⟩
  | cons a as ih =>
    rcases m with _ | ⟨b, bs⟩
    · exact ⟨[], by simp [diverge]⟩
    · by_cases h : a = b
      · subst h
        obtain ⟨common, h₁, h₂⟩ := ih bs
        refine ⟨a :: common, ?_, ?_⟩
        · rw [diverge, if_pos rfl, List.cons_append, ← h₁]
        · rw [diverge, if_pos rfl, List.cons_append, ← h₂]
      · exact ⟨[], by simp [diverge, h]⟩

/-- The components of the way from one place to another. -/
def way (target start : List String) : List String :=
  (diverge target start).2.map (fun _ => "..") ++ (diverge target start).1

/-- The way from a directory leads to its target: first back to where both part, then on. -/
theorem travel_way {start : List String} (h : ∀ p ∈ start, Named p) (target : List String)
    (absolute : Bool) (below : List String) :
    travel absolute (start.reverse ++ below) (way target start) = travel absolute below target := by
  obtain ⟨common, htarget, hstart⟩ := diverge_spec target start
  have hcommon : ∀ p ∈ common, Named p := fun p hp =>
    h p (by rw [hstart]; exact List.mem_append_left _ hp)
  have hup : ∀ p ∈ (diverge target start).2, Named p := fun p hp =>
    h p (by rw [hstart]; exact List.mem_append_right _ hp)
  calc travel absolute (start.reverse ++ below) (way target start)
      = travel absolute
          (travel absolute ((diverge target start).2.reverse ++ (common.reverse ++ below))
            ((diverge target start).2.map fun _ => "..")) (diverge target start).1 := by
        rw [way, travel_append, ← List.append_assoc, ← List.reverse_append, ← hstart]
    _ = travel absolute (common.reverse ++ below) (diverge target start).1 := by
        rw [travel_up hup]
    _ = travel absolute below target := by
        rw [← travel_named hcommon absolute below, ← travel_append, ← htarget]

/-! ## Components of texts -/

theorem components_eq (s : String) :
    components s = (travel (rootOf s ≠ "") [] (Text.splitAll '/' s)).reverse := rfl

theorem travel_components {s : String} (h : rootOf s = "") (absolute : Bool)
    (start : List String) :
    travel absolute start (components s) = travel absolute start (Text.splitAll '/' s) := by
  rw [components_eq, h]
  exact travel_normal absolute start _

theorem mem_components {s p : String} (h : p ∈ components s) :
    p ≠ "" ∧ p ≠ "." ∧ '/' ∉ p.toList := by
  rw [components_eq, List.mem_reverse] at h
  rcases travel_mem h with h | ⟨h, hempty, hhere⟩
  · exact absurd h List.not_mem_nil
  · exact ⟨hempty, hhere, Text.slash_notMem_of_mem_splitAll h⟩

/-- The components of a way are components of a path, or lead back. -/
theorem mem_way {target start p : String} (h : p ∈ way (components target) (components start)) :
    p ≠ "" ∧ '/' ∉ p.toList := by
  rcases List.mem_append.mp h with h | h
  · obtain ⟨-, -, rfl⟩ := List.mem_map.mp h
    decide
  · obtain ⟨common, htarget, -⟩ := diverge_spec (components target) (components start)
    have hmem : p ∈ components target := htarget ▸ List.mem_append_right _ h
    exact ⟨(mem_components hmem).1, (mem_components hmem).2.2⟩

theorem relative_cases (target start : String) :
    (way (components target) (components start) = [] ∧ relative target start = ".") ∨
    (way (components target) (components start) ≠ [] ∧
      relative target start = Text.join "/" (way (components target) (components start))) := by
  by_cases h : way (components target) (components start) = []
  · exact Or.inl ⟨h, if_pos h⟩
  · exact Or.inr ⟨h, if_neg h⟩

theorem travel_relative (target start : String) (absolute : Bool) (below : List String) :
    travel absolute below (Text.splitAll '/' (relative target start)) =
      travel absolute below (way (components target) (components start)) := by
  obtain ⟨hnil, htext⟩ | ⟨hne, htext⟩ := relative_cases target start
  · rw [htext, hnil, Text.splitAll_of_notMem (by decide)]
    exact step_here absolute below
  · rw [htext, Text.splitAll_join hne fun p hp => (mem_way hp).2]

/-! ## Roots -/

/-- A text that does not begin with a slash. -/
def Unrooted (s : String) : Prop := s.toList.head? ≠ some '/'

theorem takeWhile_slash_of_unrooted {s : String} (h : Unrooted s) :
    s.toList.takeWhile (· == '/') = [] := by
  unfold Unrooted at h
  rcases hs : s.toList with _ | ⟨c, rest⟩
  · rfl
  · rw [hs, List.head?_cons] at h
    have hc : (c == '/') = false := beq_false_of_ne fun hc => h (by rw [hc])
    rw [List.takeWhile_cons, hc]
    rfl

theorem rootOf_of_unrooted {s : String} (h : Unrooted s) : rootOf s = "" := by
  unfold rootOf
  rw [takeWhile_slash_of_unrooted h]
  rfl

theorem unrooted_of_rootOf {s : String} (h : rootOf s = "") : Unrooted s := by
  intro hs
  rcases hl : s.toList with _ | ⟨c, rest⟩
  · rw [hl] at hs
    simp at hs
  · rw [hl, List.head?_cons, Option.some_inj] at hs
    unfold rootOf at h
    rw [hl, hs, List.takeWhile_cons_of_pos (by rfl), List.length_cons] at h
    simp only [Nat.add_eq_zero_iff, Nat.one_ne_zero, and_false, if_false] at h
    split at h <;> exact absurd h (by decide)

/-- What does not begin with a slash adds nothing to the root in front of it. -/
theorem rootOf_append {s tail : String} (h : Unrooted tail) : rootOf (s ++ tail) = rootOf s := by
  have htake : (s ++ tail).toList.takeWhile (· == '/') = s.toList.takeWhile (· == '/') := by
    rw [String.toList_append, List.takeWhile_append, takeWhile_slash_of_unrooted h]
    split
    · rename_i hlen
      rw [List.append_nil]
      exact ((List.takeWhile_prefix _).eq_of_length hlen).symm
    · rfl
  unfold rootOf
  rw [htake]

/-- Behind a component nothing adds to the root. -/
theorem rootOf_append_of_component {s tail : String} {c : Char} (hc : c ∈ s.toList)
    (hne : c ≠ '/') : rootOf (s ++ tail) = rootOf s := by
  have htake : (s ++ tail).toList.takeWhile (· == '/') = s.toList.takeWhile (· == '/') := by
    rw [String.toList_append, List.takeWhile_append, if_neg]
    intro hlen
    have hall := (List.takeWhile_prefix (p := (· == '/')) (l := s.toList)).eq_of_length hlen
    have hslash := List.all_eq_true.mp (List.all_takeWhile (p := (· == '/')) (l := s.toList)) c
      (hall.symm ▸ hc)
    exact hne (beq_iff_eq.mp hslash)
  unfold rootOf
  rw [htake]

theorem rootOf_cases (s : String) : rootOf s = "" ∨ rootOf s = "/" ∨ rootOf s = "//" := by
  unfold rootOf
  simp only
  split
  · exact Or.inl rfl
  · split
    · exact Or.inr (Or.inr rfl)
    · exact Or.inr (Or.inl rfl)

theorem rootOf_rootOf (s : String) : rootOf (rootOf s) = rootOf s := by
  rcases rootOf_cases s with h | h | h <;> rw [h] <;> decide

/-- Texts of components, joined, do not begin with a slash. -/
theorem unrooted_join {parts : List String} (h : ∀ p ∈ parts, p ≠ "" ∧ '/' ∉ p.toList) :
    Unrooted (Text.join "/" parts) := by
  have hfirst : ∀ p ∈ parts, ∀ tail : List Char, (p.toList ++ tail).head? ≠ some '/' := by
    intro p hp tail hhead
    obtain ⟨hne, hslash⟩ := h p hp
    rcases hl : p.toList with _ | ⟨c, rest⟩
    · exact hne (String.toList_eq_nil_iff.mp hl)
    · rw [hl, List.cons_append, List.head?_cons, Option.some_inj] at hhead
      exact hslash (by rw [hl, hhead]; exact List.mem_cons_self)
  unfold Unrooted
  rcases parts with _ | ⟨p, _ | ⟨q, rest⟩⟩
  · simp [Text.join]
  · simpa [Text.join] using hfirst p List.mem_cons_self []
  · rw [Text.join_cons_cons, String.toList_append, String.toList_append, List.append_assoc]
    exact hfirst p List.mem_cons_self _

/-! ## Joined and normalized texts -/

theorem unrooted_relative (target start : String) : Unrooted (relative target start) := by
  obtain ⟨-, htext⟩ | ⟨-, htext⟩ := relative_cases target start
  · rw [htext, Unrooted]
    decide
  · rw [htext]
    exact unrooted_join fun p hp => mem_way hp

theorem travel_root (s : String) (absolute : Bool) (start : List String) (tail : String) :
    travel absolute start (Text.splitAll '/' (rootOf s ++ tail)) =
      travel absolute start (Text.splitAll '/' tail) := by
  have hslash : ∀ t : String, Text.splitAll '/' ("/" ++ t) = "" :: Text.splitAll '/' t := by
    intro t
    have h := Text.splitAll_append_slash "" t
    rwa [String.empty_append, Text.splitAll_empty, List.singleton_append] at h
  rcases rootOf_cases s with h | h | h
  · rw [h, String.empty_append]
  · rw [h, hslash, travel_cons, step_empty]
  · rw [h, show ("//" : String) ++ tail = "/" ++ ("/" ++ tail) by
      rw [← String.append_assoc]; rfl, hslash, hslash, travel_cons, travel_cons, step_empty,
      step_empty]

theorem startsWith_slash_of_unrooted {s : String} (h : Unrooted s) :
    Text.startsWith s "/" = false := by
  rw [Bool.eq_false_iff]
  intro hstart
  obtain ⟨tail, htail⟩ := Text.startsWith_iff.mp hstart
  exact h (by rw [← htail]; rfl)

/-- A text joined to a directory is the directory, the slash between them, if any, and the text. -/
theorem join_cases {rest : String} (h : Unrooted rest) (start : String) :
    (start = "" ∧ join start rest = rest) ∨
    (∃ u, start = u ++ "/" ∧ join start rest = u ++ "/" ++ rest) ∨
    (start ≠ "" ∧ Text.endsWith start "/" = false ∧ join start rest = start ++ "/" ++ rest) := by
  unfold join
  rw [startsWith_slash_of_unrooted h, if_neg (by decide)]
  by_cases hempty : start = ""
  · exact Or.inl ⟨hempty, by simp [hempty]⟩
  · refine Or.inr ?_
    cases hslash : Text.endsWith start "/" with
    | true =>
      obtain ⟨u, hu⟩ := Text.endsWith_iff.mp hslash
      have hstart : start = String.ofList u ++ "/" := by
        rw [← String.toList_inj, String.toList_append, String.toList_ofList, hu]
      exact Or.inl ⟨String.ofList u, hstart, by simp [← hstart]⟩
    | false => exact Or.inr ⟨hempty, rfl, by simp [hempty]⟩

/-- Travelling along joined texts is travelling along one after the other. -/
theorem travel_join {rest : String} (h : Unrooted rest) (start : String) (absolute : Bool)
    (below : List String) :
    travel absolute below (Text.splitAll '/' (join start rest)) =
      travel absolute (travel absolute below (Text.splitAll '/' start))
        (Text.splitAll '/' rest) := by
  obtain ⟨hstart, hjoin⟩ | ⟨u, hstart, hjoin⟩ | ⟨-, -, hjoin⟩ := join_cases h start
  · rw [hjoin, hstart, Text.splitAll_empty, travel_cons, step_empty, travel_nil]
  · have hu : Text.splitAll '/' (u ++ "/") = Text.splitAll '/' u ++ [""] := by
      have h := Text.splitAll_append_slash u ""
      rwa [String.append_empty, Text.splitAll_empty] at h
    rw [hjoin, hstart, Text.splitAll_append_slash, hu, travel_append, travel_append, travel_cons,
      step_empty, travel_nil]
  · rw [hjoin, Text.splitAll_append_slash, travel_append]

theorem rootOf_join {rest : String} (h : Unrooted rest) (start : String) :
    rootOf (join start rest) = rootOf start := by
  obtain ⟨hstart, hjoin⟩ | ⟨u, hstart, hjoin⟩ | ⟨hne, hslash, hjoin⟩ := join_cases h start
  · rw [hjoin, hstart, rootOf_of_unrooted h]
    rfl
  · rw [hjoin, ← hstart, rootOf_append h]
  · -- the directory does not end with a slash, so it has a component
    obtain ⟨c, hc, hcne⟩ : ∃ c ∈ start.toList, c ≠ '/' := by
      have hnil : start.toList ≠ [] := fun h0 => hne (String.toList_eq_nil_iff.mp h0)
      refine ⟨start.toList.getLast hnil, List.getLast_mem hnil, fun hlast => ?_⟩
      rw [Bool.eq_false_iff] at hslash
      refine hslash (Text.endsWith_iff.mpr ⟨start.toList.dropLast, ?_⟩)
      have hsplit := List.dropLast_concat_getLast hnil
      rw [hlast] at hsplit
      exact hsplit
    rw [hjoin, String.append_assoc, rootOf_append_of_component hc hcne]

/-- Above the root there is nothing to go back to. -/
theorem up_notMem_travel {l start : List String} (h : ".." ∉ start) :
    ".." ∉ travel true start l := by
  induction l generalizing start with
  | nil => exact h
  | cons p rest ih =>
    refine ih fun hmem => ?_
    by_cases hup : p = ".."
    · subst hup
      rcases start with _ | ⟨last, before⟩
      · simp [step] at hmem
      · rw [List.mem_cons, not_or] at h
        have hback : step true (last :: before) ".." = before := by
          simp [step, Ne.symm h.1]
        exact h.2 (hback ▸ hmem)
    · rcases step_mem hmem with hmem | ⟨hp, -⟩
      · exact h hmem
      · exact hup hp.symm

/-- Normalized components stay as they are. -/
theorem travel_travel (absolute : Bool) (l : List String) :
    travel absolute [] (travel absolute [] l).reverse = travel absolute [] l := by
  cases absolute with
  | false => exact travel_normal false [] l
  | true =>
    have hnamed : ∀ p ∈ (travel true [] l).reverse, Named p := by
      intro p hp
      rw [List.mem_reverse] at hp
      rcases travel_mem hp with h | ⟨-, hempty, hhere⟩
      · exact absurd h List.not_mem_nil
      · refine ⟨hempty, hhere, fun hup => ?_⟩
        exact up_notMem_travel List.not_mem_nil (hup ▸ hp)
    rw [travel_named hnamed, List.reverse_reverse, List.append_nil]

theorem join_ne_empty {parts : List String} (hparts : parts ≠ []) (h : ∀ p ∈ parts, p ≠ "") :
    Text.join "/" parts ≠ "" := by
  rcases parts with _ | ⟨p, _ | ⟨q, rest⟩⟩
  · exact absurd rfl hparts
  · exact h p List.mem_cons_self
  · intro hempty
    have hlist := congrArg String.toList hempty
    rw [Text.join_cons_cons, String.toList_append, String.toList_append] at hlist
    simp at hlist

/-- A normalized text is a dot, or the root followed by the components. -/
theorem normalize_cases (s : String) :
    (rootOf s = "" ∧ components s = [] ∧ normalize s = ".") ∨
    (¬(rootOf s = "" ∧ components s = []) ∧
      normalize s = rootOf s ++ Text.join "/" (components s)) := by
  unfold normalize
  by_cases h : rootOf s = "" ∧ components s = []
  · exact Or.inl ⟨h.1, h.2, by rw [h.1, h.2]; rfl⟩
  · refine Or.inr ⟨h, if_neg fun hempty => h ?_⟩
    have hparts : rootOf s = "" ∧ Text.join "/" (components s) = "" := by
      have hlist := congrArg String.toList hempty
      rw [String.toList_append] at hlist
      obtain ⟨h₁, h₂⟩ := List.append_eq_nil_iff.mp hlist
      exact ⟨String.toList_eq_nil_iff.mp h₁, String.toList_eq_nil_iff.mp h₂⟩
    refine ⟨hparts.1, ?_⟩
    by_contra hne
    exact join_ne_empty hne (fun p hp => (mem_components hp).1) hparts.2

@[simp] theorem rootOf_normalize (s : String) : rootOf (normalize s) = rootOf s := by
  obtain ⟨hroot, -, hnorm⟩ | ⟨-, hnorm⟩ := normalize_cases s
  · rw [hnorm, hroot]
    decide
  · rw [hnorm, rootOf_append, rootOf_rootOf]
    exact unrooted_join fun p hp => ⟨(mem_components hp).1, (mem_components hp).2.2⟩

@[simp] theorem components_normalize (s : String) : components (normalize s) = components s := by
  rw [components_eq, rootOf_normalize]
  obtain ⟨-, hnil, hnorm⟩ | ⟨-, hnorm⟩ := normalize_cases s
  · rw [hnorm, hnil, Text.splitAll_of_notMem (by decide), travel_cons, step_here, travel_nil,
      List.reverse_nil]
  · rw [hnorm, travel_root]
    by_cases hnil : components s = []
    · rw [hnil]
      rfl
    · rw [Text.splitAll_join hnil fun p hp => (mem_components hp).2.2]
      conv_rhs => rw [components_eq]
      rw [components_eq, travel_travel]

/-- Texts are normalized alike when they have the same root and the same components. -/
theorem normalize_eq_iff {s t : String} :
    normalize s = normalize t ↔ rootOf s = rootOf t ∧ components s = components t := by
  constructor
  · intro h
    refine ⟨?_, ?_⟩
    · rw [← rootOf_normalize s, h, rootOf_normalize]
    · rw [← components_normalize s, h, components_normalize]
  · rintro ⟨hroot, hparts⟩
    unfold normalize
    rw [hroot, hparts]

/-- Relative texts that are normalized alike lead from anywhere to the same place. -/
theorem travel_eq_of_normalize_eq {s t : String} (h : normalize s = normalize t)
    (ht : rootOf t = "") (absolute : Bool) (start : List String) :
    travel absolute start (Text.splitAll '/' s) = travel absolute start (Text.splitAll '/' t) := by
  obtain ⟨hroot, hparts⟩ := normalize_eq_iff.mp h
  rw [← travel_components (hroot.trans ht), ← travel_components ht, hparts]

/-- The components of joined texts: those of the first, travelled on from. -/
theorem components_join {rest : String} (h : Unrooted rest) (start : String) :
    components (join start rest) =
      (travel (rootOf start ≠ "") (components start).reverse (Text.splitAll '/' rest)).reverse := by
  rw [components_eq, rootOf_join h, travel_join h, components_eq start, List.reverse_reverse]

end Lexical
end Transplant
