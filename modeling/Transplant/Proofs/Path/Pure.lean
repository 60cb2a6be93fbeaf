import Transplant.Path.Pure
import Transplant.Proofs.Path.Lexical

/-!
# Paths and what is written for them

A `Path` is a root with components, and `Lexical` works on texts.  This file carries the one over to
the other: the components of the text of a path are where its own components lead, and the directory
part of that text is the text of the parent.

Names of files are taken apart at their last dot.  By `stem_suffix_of_name` a name made of a stem
and an ending comes apart in the same place, as long as the stem is not empty, and by
`append_ending_inj` it is made in no other way.

* `Path.components_toString`, `Path.components_parent_toString`: paths as journeys
* `Path.relativeTo_append`: what was put below a directory is found below it
* `Path.withName_of_component`: names that can replace a last component
-/

namespace Transplant

open Lexical

namespace Path

/-- A path with one of the three roots, whose components are not empty and have no slash. -/
structure Sound (p : Path) : Prop where
  root : p.root = "" ∨ p.root = "/" ∨ p.root = "//"
  parts : ∀ q ∈ p.parts, q ≠ "" ∧ '/' ∉ q.toList

@[simp] theorem root_ofString (s : String) : (ofString s).root = rootOf s := rfl

theorem mem_parts_ofString {s q : String} (h : q ∈ (ofString s).parts) :
    q ≠ "" ∧ q ≠ "." ∧ '/' ∉ q.toList := by
  obtain ⟨hmem, hkeep⟩ := List.mem_filter.mp h
  simp only [Bool.and_eq_true, decide_eq_true_eq] at hkeep
  exact ⟨hkeep.1, hkeep.2, Text.slash_notMem_of_mem_splitAll hmem⟩

theorem sound_ofString (s : String) : (ofString s).Sound :=
  ⟨rootOf_cases s, fun _ hq => ⟨(mem_parts_ofString hq).1, (mem_parts_ofString hq).2.2⟩⟩

theorem append_of_relative {p q : Path} (h : q.root = "") :
    p ++ q = ⟨p.root, p.parts ++ q.parts⟩ := if_pos h

theorem sound_append {p q : Path} (hp : p.Sound) (hq : q.Sound) : (p ++ q).Sound := by
  by_cases h : q.root = ""
  · rw [append_of_relative h]
    refine ⟨hp.root, fun r hr => ?_⟩
    rcases List.mem_append.mp hr with hr | hr
    · exact hp.parts r hr
    · exact hq.parts r hr
  · rwa [show p ++ q = q from if_neg h]

/-! ## Texts of paths -/

theorem rootOf_root {p : Path} (hp : p.Sound) : rootOf p.root = p.root := by
  rcases hp.root with h | h | h <;> rw [h] <;> decide

theorem toString_cases (p : Path) :
    (p.root = "" ∧ p.parts = [] ∧ p.toString = ".") ∨
    (¬(p.root = "" ∧ p.parts = []) ∧ p.toString = p.root ++ Text.join "/" p.parts) := by
  unfold toString
  by_cases h : p.root = "" ∧ p.parts = []
  · exact Or.inl ⟨h.1, h.2, by simp [h.1, h.2]⟩
  · exact Or.inr ⟨h, if_neg (by simpa using h)⟩

theorem rootOf_toString {p : Path} (hp : p.Sound) : rootOf p.toString = p.root := by
  obtain ⟨hroot, -, htext⟩ | ⟨-, htext⟩ := p.toString_cases
  · rw [htext, hroot]
    decide
  · rw [htext, rootOf_append (unrooted_join hp.parts), rootOf_root hp]

/-- Travelling along the text of a path is travelling along its components. -/
theorem travel_toString {p : Path} (hp : p.Sound) (absolute : Bool) (start : List String) :
    travel absolute start (Text.splitAll '/' p.toString) = travel absolute start p.parts := by
  obtain ⟨-, hnil, htext⟩ | ⟨-, htext⟩ := p.toString_cases
  · rw [htext, hnil, Text.splitAll_of_notMem (by decide), travel_cons, step_here]
  · rw [htext, ← rootOf_root hp, travel_root]
    by_cases hnil : p.parts = []
    · rw [hnil]
      exact step_empty absolute start
    · rw [Text.splitAll_join hnil fun q hq => (hp.parts q hq).2]

theorem components_toString {p : Path} (hp : p.Sound) :
    components p.toString = (travel (p.root ≠ "") [] p.parts).reverse := by
  rw [components_eq, rootOf_toString hp, travel_toString hp]

theorem components_toString_of_named {p : Path} (hp : p.Sound) (h : ∀ q ∈ p.parts, Named q) :
    components p.toString = p.parts := by
  rw [components_toString hp, travel_named h, List.append_nil, List.reverse_reverse]

theorem join_concat {init : List String} (h : init ≠ []) (last : String) :
    Text.join "/" (init ++ [last]) = Text.join "/" init ++ "/" ++ last := by
  induction init with
  | nil => exact absurd rfl h
  | cons p rest ih =>
    rcases rest with _ | ⟨q, rest⟩
    · rfl
    · rw [List.cons_append, List.cons_append, Text.join_cons_cons, Text.join_cons_cons,
        ← List.cons_append, ih (List.cons_ne_nil q rest)]
      simp only [String.append_assoc]

/-- What is written behind the text of a path belongs to its last component. -/
theorem toString_concat_append (root : String) (init : List String) (last tail : String) :
    (⟨root, init ++ [last]⟩ : Path).toString ++ tail =
      (⟨root, init ++ [last ++ tail]⟩ : Path).toString := by
  rw [toString, if_neg (by simp), toString, if_neg (by simp)]
  by_cases hinit : init = []
  · rw [hinit, List.nil_append, List.nil_append]
    exact String.append_assoc
  · rw [join_concat hinit, join_concat hinit]
    simp only [String.append_assoc]

/-- A slash and a component make the path one component longer. -/
theorem toString_append_component (root : String) {parts : List String} (h : parts ≠ [])
    (n : String) :
    (⟨root, parts⟩ : Path).toString ++ "/" ++ n = (⟨root, parts ++ [n]⟩ : Path).toString := by
  rw [toString, if_neg (by simp [h]), toString, if_neg (by simp), join_concat h]
  simp only [String.append_assoc]

/-- A normalized text is the text of a path with its components. -/
theorem normalize_eq_toString (s : String) :
    normalize s = (⟨rootOf s, components s⟩ : Path).toString := by
  obtain ⟨hroot, hnil, hnorm⟩ | ⟨hne, hnorm⟩ := normalize_cases s
  · rw [hnorm, hroot, hnil]
    rfl
  · rw [hnorm, toString, if_neg (by simpa using hne)]

theorem sound_components (s : String) : (⟨rootOf s, components s⟩ : Path).Sound :=
  ⟨rootOf_cases s, fun _ hq => ⟨(mem_components hq).1, (mem_components hq).2.2⟩⟩

/-! ## Directory parts -/

theorem throughSlash_append {l last : List Char} (h : '/' ∉ last) :
    throughSlash (l ++ last) = throughSlash l := by
  unfold throughSlash
  rw [List.reverse_append, List.dropWhile_append_of_pos]
  intro c hc
  simp only [ne_eq, decide_not, Bool.not_eq_eq_eq_not, Bool.not_true, decide_eq_false_iff_not]
  rintro rfl
  exact h (List.mem_reverse.mp hc)

theorem throughSlash_slash (l : List Char) : throughSlash (l ++ ['/']) = l ++ ['/'] := by
  unfold throughSlash
  rw [List.reverse_append, List.reverse_singleton, List.singleton_append,
    List.dropWhile_cons_of_neg (by simp), List.reverse_cons, List.reverse_reverse]

/-- Joined components do not end with a slash. -/
theorem getLast?_join {parts : List String} (hparts : parts ≠ [])
    (h : ∀ p ∈ parts, p ≠ "" ∧ '/' ∉ p.toList) :
    ∃ c, (Text.join "/" parts).toList.getLast? = some c ∧ c ≠ '/' := by
  obtain ⟨init, last, rfl⟩ : ∃ init last, parts = init ++ [last] :=
    ⟨parts.dropLast, parts.getLast hparts, (List.dropLast_concat_getLast hparts).symm⟩
  obtain ⟨hne, hslash⟩ := h last (by simp)
  have hnil : last.toList ≠ [] := fun h0 => hne (String.toList_eq_nil_iff.mp h0)
  refine ⟨last.toList.getLast hnil, ?_, fun hc => hslash (hc ▸ List.getLast_mem hnil)⟩
  by_cases hinit : init = []
  · subst hinit
    exact List.getLast?_eq_some_getLast hnil
  · rw [join_concat hinit, String.toList_append, List.getLast?_append,
      List.getLast?_eq_some_getLast hnil, Option.some_or]

theorem dropWhile_slash_reverse {l : List Char} {c : Char} (h : l.getLast? = some c)
    (hc : c ≠ '/') : ((l ++ ['/']).reverse.dropWhile (· == '/')).reverse = l := by
  obtain ⟨init, rfl⟩ : ∃ init, l = init ++ [c] := by
    rw [List.getLast?_eq_some_iff] at h
    exact h
  simp [hc]

/-- The directory part of the text of a path is the text of its parent. -/
theorem parent_toString {p : Path} (hp : p.Sound) (h : p.parts ≠ []) :
    Lexical.parent p.toString =
      if p.root = "" ∧ p.parts.dropLast = [] then "" else p.parent.toString := by
  obtain ⟨root, parts⟩ := p
  obtain ⟨init, last, rfl⟩ : ∃ init last, parts = init ++ [last] :=
    ⟨parts.dropLast, parts.getLast h, (List.dropLast_concat_getLast h).symm⟩
  have hlast : '/' ∉ last.toList := (hp.parts last (by simp)).2
  have htext : toString ⟨root, init ++ [last]⟩ = root ++ Text.join "/" (init ++ [last]) :=
    if_neg (by simp)
  show Lexical.parent (toString ⟨root, init ++ [last]⟩) = if root = "" ∧ (init ++ [last]).dropLast = []
    then "" else toString ⟨root, (init ++ [last]).dropLast⟩
  rw [List.dropLast_concat, htext]
  by_cases hinit : init = []
  · -- only the root is in front of the last component
    subst hinit
    have hthrough : throughSlash (root ++ Text.join "/" ([] ++ [last])).toList = root.toList := by
      rw [String.toList_append, List.nil_append]
      refine (throughSlash_append hlast).trans ?_
      rcases hp.root with h | h | h <;> simp only [] at h <;> rw [h] <;> decide
    have hall : root.toList.all (· == '/') = true := by
      rcases hp.root with h | h | h <;> simp only [] at h <;> rw [h] <;> decide
    unfold Lexical.parent
    simp only [hthrough, hall, if_true, String.ofList_toList, and_true]
    split
    · assumption
    · rename_i hroot
      unfold toString
      simp [hroot, Text.join]
  · obtain ⟨c, hc, hcne⟩ := getLast?_join hinit fun q hq => hp.parts q (List.mem_append_left _ hq)
    have hthrough : throughSlash (root ++ Text.join "/" (init ++ [last])).toList =
        (root ++ Text.join "/" init).toList ++ ['/'] := by
      rw [join_concat hinit, ← String.append_assoc, ← String.append_assoc, String.toList_append,
        throughSlash_append hlast, String.toList_append]
      exact throughSlash_slash _
    have hend : (root ++ Text.join "/" init).toList.getLast? = some c := by
      rw [String.toList_append, List.getLast?_append, hc, Option.some_or]
    have hsome : ((root ++ Text.join "/" init).toList ++ ['/']).all (· == '/') = false := by
      rw [Bool.eq_false_iff]
      intro hall
      refine hcne (beq_iff_eq.mp (List.all_eq_true.mp hall c ?_))
      exact List.mem_append_left _ (List.mem_of_getLast? hend)
    unfold Lexical.parent
    simp only [hthrough, hsome, dropWhile_slash_reverse hend hcne, String.ofList_toList,
      Bool.false_eq_true, if_false, hinit, and_false]
    unfold toString
    simp [hinit]

theorem sound_parent {p : Path} (hp : p.Sound) : p.parent.Sound :=
  ⟨hp.root, fun q hq => hp.parts q (List.dropLast_subset _ hq)⟩

theorem rootOf_parent_toString {p : Path} (hp : p.Sound) (h : p.parts ≠ []) :
    rootOf (Lexical.parent p.toString) = p.root := by
  rw [parent_toString hp h]
  split
  · rename_i hempty
    rw [hempty.1]
    decide
  · exact rootOf_toString (sound_parent hp)

theorem components_parent_toString {p : Path} (hp : p.Sound) (h : p.parts ≠ []) :
    components (Lexical.parent p.toString) =
      (travel (p.root ≠ "") [] p.parts.dropLast).reverse := by
  rw [parent_toString hp h]
  split
  · rename_i hempty
    rw [hempty.2]
    rfl
  · exact components_toString (sound_parent hp)

/-! ## Names -/

/-- A dot with something behind it that has no dot and no slash. -/
structure Ending (e : String) : Prop where
  split : ∃ rest, e.toList = '.' :: rest ∧ rest ≠ [] ∧ '.' ∉ rest
  slash : '/' ∉ e.toList

/-- Something with an ending behind it is more than dots. -/
theorem Ending.named {t e : String} (he : Ending e) (ht : t ≠ "") : Named (t ++ e) := by
  obtain ⟨rest, hrest, hne, -⟩ := he.split
  refine named_of_length ?_
  have htpos : 0 < t.toList.length :=
    List.length_pos_iff.mpr fun h => ht (String.toList_eq_nil_iff.mp h)
  have hpos : 0 < rest.length := List.length_pos_iff.mpr hne
  rw [String.toList_append, List.length_append, hrest, List.length_cons]
  omega

theorem takeWhile_reverse_dot {l rest : List Char} (h : '.' ∉ rest) :
    (l ++ '.' :: rest).reverse.takeWhile (· ≠ '.') = rest.reverse := by
  rw [List.reverse_append, List.reverse_cons, List.append_assoc, List.takeWhile_append_of_pos,
    List.singleton_append, List.takeWhile_cons_of_neg (by simp), List.append_nil]
  intro c hc
  simp only [ne_eq, decide_not, Bool.not_eq_eq_eq_not, Bool.not_true, decide_eq_false_iff_not]
  rintro rfl
  exact h (List.mem_reverse.mp hc)

theorem dotAt?_append {t e : String} (he : Ending e) (ht : t ≠ "") :
    dotAt? (t ++ e) = some t.toList.length := by
  obtain ⟨rest, hrest, hne, hdot⟩ := he.split
  have htext : (t ++ e).toList = t.toList ++ '.' :: rest := by rw [String.toList_append, hrest]
  have hpos : 0 < rest.length := List.length_pos_iff.mpr hne
  have htpos : 0 < t.toList.length :=
    List.length_pos_iff.mpr fun h => ht (String.toList_eq_nil_iff.mp h)
  unfold dotAt?
  simp only [htext, takeWhile_reverse_dot hdot, List.length_reverse, List.length_append,
    List.length_cons]
  rw [if_pos (by simp; omega)]
  congr 1
  omega

/-- A name has no ending, or it is cut at its last dot. -/
theorem dotAt?_cases (n : String) :
    dotAt? n = none ∨ ∃ t rest, n.toList = t ++ '.' :: rest ∧ rest ≠ [] ∧ '.' ∉ rest ∧
      dotAt? n = some t.length := by
  by_cases hdot : dotAt? n = none
  · exact Or.inl hdot
  · have hfound : (n.toList.reverse.takeWhile (· ≠ '.')).length < n.toList.length ∧
        0 < (n.toList.reverse.takeWhile (· ≠ '.')).length ∧
        dotAt? n = some (n.toList.length - (n.toList.reverse.takeWhile (· ≠ '.')).length - 1) := by
      unfold dotAt? at hdot ⊢
      simp only at hdot ⊢
      split at hdot
      · rename_i hat
        rw [if_pos hat]
        simp only [Bool.and_eq_true, decide_eq_true_eq] at hat
        exact ⟨hat.1.1, hat.1.2, rfl⟩
      · exact absurd rfl hdot
    obtain ⟨hlt, hpos, hat⟩ := hfound
    have hsplit := List.takeWhile_append_dropWhile (p := (· ≠ '.')) (l := n.toList.reverse)
    have hnodot : '.' ∉ n.toList.reverse.takeWhile (· ≠ '.') := fun hmem => by
      have hall := List.all_eq_true.mp (List.all_takeWhile (p := (· ≠ '.'))) '.' hmem
      simp at hall
    generalize n.toList.reverse.takeWhile (· ≠ '.') = after at hlt hpos hat hsplit hnodot
    cases hrest : n.toList.reverse.dropWhile (· ≠ '.') with
    | nil =>
      rw [hrest, List.append_nil] at hsplit
      rw [hsplit, List.length_reverse] at hlt
      exact absurd hlt (Nat.lt_irrefl _)
    | cons c before =>
      have hc : c = '.' := by
        have hnot := List.head?_dropWhile_not (fun c => decide (c ≠ '.')) n.toList.reverse
        rw [hrest] at hnot
        simpa using hnot
      subst hc
      have htext : n.toList = before.reverse ++ '.' :: after.reverse := by
        rw [hrest] at hsplit
        rw [← List.reverse_reverse n.toList, ← hsplit]
        simp
      refine Or.inr ⟨_, _, htext, ?_, fun hmem => hnodot (List.mem_reverse.mp hmem), ?_⟩
      · rw [ne_eq, List.reverse_eq_nil_iff]
        exact List.length_pos_iff.mp hpos
      · rw [hat, htext]
        simp only [List.length_append, List.length_cons, List.length_reverse]
        congr 1
        omega

/-- A name with a stem in front of its ending comes apart there. -/
theorem stem_suffix_of_name {p : Path} {t e : String} (he : Ending e) (ht : t ≠ "")
    (h : p.name = t ++ e) : p.stem = t ∧ p.suffix = e := by
  simp only [stem, suffix, Text.drop, h, dotAt?_append he ht, String.toList_append,
    List.take_left, List.drop_left, String.ofList_toList, and_self]

theorem stem_append_suffix (p : Path) : p.stem ++ p.suffix = p.name := by
  unfold stem suffix
  cases dotAt? p.name with
  | none => exact String.append_empty
  | some i =>
    simp only [Text.drop]
    rw [← String.ofList_append, List.take_append_drop, String.ofList_toList]

theorem stem_of_no_dot {p : Path} (h : '.' ∉ p.name.toList) : p.stem = p.name := by
  obtain hnone | ⟨t, rest, htext, -⟩ := dotAt?_cases p.name
  · rw [stem, hnone]
  · exact absurd (htext ▸ List.mem_append_right t List.mem_cons_self) h

theorem suffix_cases {p : Path} (h : '/' ∉ p.name.toList) : p.suffix = "" ∨ Ending p.suffix := by
  obtain hnone | ⟨t, rest, htext, hne, hdot, hat⟩ := dotAt?_cases p.name
  · exact Or.inl (by rw [suffix, hnone])
  · have hsuffix : p.suffix.toList = '.' :: rest := by
      simp only [suffix, hat, Text.drop, htext, List.drop_left, String.toList_ofList]
    refine Or.inr ⟨⟨rest, hsuffix, hne, hdot⟩, fun hmem => h ?_⟩
    rw [htext]
    exact List.mem_append_right t (hsuffix ▸ hmem)

/-- The last dot of a text tells where its ending begins. -/
theorem append_ending_inj {t t' e e' : String} (he : Ending e) (he' : Ending e') :
    t ++ e = t' ++ e' ↔ t = t' ∧ e = e' := by
  refine ⟨fun h => ?_, fun h => by rw [h.1, h.2]⟩
  obtain ⟨rest, hrest, -, hdot⟩ := he.split
  obtain ⟨rest', hrest', -, hdot'⟩ := he'.split
  have hlist : t.toList ++ '.' :: rest = t'.toList ++ '.' :: rest' := by
    rw [← hrest, ← hrest', ← String.toList_append, ← String.toList_append, h]
  have hrests : rest = rest' := by
    rw [← List.reverse_inj, ← takeWhile_reverse_dot hdot, hlist, takeWhile_reverse_dot hdot']
  have hsame : e = e' := by rw [← String.toList_inj, hrest, hrest', hrests]
  exact ⟨(String.append_left_inj e).mp (hsame ▸ h), hsame⟩

/-! ## Paths made from paths -/

theorem name_concat (root : String) (init : List String) (n : String) :
    (⟨root, init ++ [n]⟩ : Path).name = n := by
  simp [name]

/-- The name of a path with components is not changed by what stands in front of it. -/
theorem name_append {p q : Path} (h : q.parts ≠ []) : (p ++ q).name = q.name := by
  by_cases hrel : q.root = ""
  · rw [append_of_relative hrel, name, name, List.getLast?_append,
      List.getLast?_eq_some_getLast h, Option.some_or]
  · rw [show p ++ q = q from if_neg hrel]

/-- The last component that is written is the name. -/
theorem name_ofString_of_split {s last : String} {before : List String}
    (h : Text.splitAll '/' s = before ++ [last]) (hempty : last ≠ "") (hhere : last ≠ ".") :
    (ofString s).name = last := by
  simp [ofString, name, h, hempty, hhere]

theorem parts_eq {p : Path} (h : p.parts ≠ []) : p.parts.dropLast ++ [p.name] = p.parts := by
  rw [name, List.getLast?_eq_some_getLast h, Option.getD_some, List.dropLast_concat_getLast]

theorem name_ne_empty {p : Path} (h : p.Sound) (hne : p.parts ≠ []) : p.name ≠ "" := by
  refine (h.parts p.name ?_).1
  rw [← parts_eq hne]
  exact List.mem_append_right _ List.mem_cons_self

theorem ofString_of_component {n : String} (hempty : n ≠ "") (hhere : n ≠ ".")
    (hslash : '/' ∉ n.toList) : ofString n = ⟨"", [n]⟩ := by
  have hroot : rootOf n = "" := rootOf_of_unrooted fun hhead => hslash (List.mem_of_head? hhead)
  simp [ofString, Text.splitAll_of_notMem hslash, hempty, hhere, hroot]

theorem withName_of_component {p : Path} {n : String} (hp : p.name ≠ "") (hempty : n ≠ "")
    (hhere : n ≠ ".") (hslash : '/' ∉ n.toList) :
    p.withName n = .ok ⟨p.root, p.parts.dropLast ++ [n]⟩ := by
  have hend : Text.endsWith n "/" = false := by
    rw [Bool.eq_false_iff]
    intro hend
    obtain ⟨u, hu⟩ := Text.endsWith_iff.mp hend
    exact hslash (by rw [← hu]; simp)
  simp [withName, hp, hempty, hend, ofString_of_component hempty hhere hslash]

/-- What was put below a directory is found below it. -/
theorem relativeTo_append {p q : Path} (h : q.root = "") : (p ++ q).relativeTo p = .ok q := by
  obtain ⟨root, parts⟩ := q
  obtain rfl : root = "" := h
  rw [append_of_relative rfl]
  unfold relativeTo
  by_cases hhere : p.root = "" ∧ p.parts = []
  · simp [hhere.1, hhere.2]
  · have hfront : p.parts.isPrefixOf (p.parts ++ parts) = true := by simp
    simp only [hfront, List.drop_left]
    rw [if_neg (by simpa using hhere), if_pos (by simp)]

/-- A path that is found below a directory was put below it. -/
theorem relativeTo_cases {p start way : Path} (h : p.relativeTo start = .ok way) :
    p = start ++ way ∧ way.root = "" := by
  unfold relativeTo at h
  split at h
  · rename_i hhere
    simp only [Bool.and_eq_true, decide_eq_true_eq] at hhere
    split at h
    · rename_i hroot
      obtain rfl := Except.ok.inj h
      refine ⟨?_, hroot⟩
      rw [append_of_relative hroot, hhere.1, hhere.2, List.nil_append, ← hroot]
    · cases h
  · split at h
    · rename_i hbelow
      simp only [Bool.and_eq_true, decide_eq_true_eq, List.isPrefixOf_iff_prefix] at hbelow
      obtain ⟨hroot, rest, hrest⟩ := hbelow
      obtain rfl := Except.ok.inj h
      refine ⟨?_, rfl⟩
      rw [append_of_relative rfl, ← hroot, ← hrest, List.drop_left, hrest]
    · cases h

end Path
end Transplant
