import Transplant.Migration.Discovery
import Transplant.Proofs.Plan.Registry

/-!
# Names of what a batch leaves behind

A batch leaves three kinds of files behind: components, tests and style files.  Their paths are made
by three functions that know nothing of each other.  This file tells their results apart by the last
component of the path alone, so that no two kinds ever meet, whatever the directories are.

Scripts end with one of the endings of components, and style files do not; an ending stays with its
file when the file gets a new name.  Tests are scripts as well.  What stands before the ending of a
test ends with `.test`: no component is called so, since files with `.test.` in their names are not
taken for components, and a new name has no dots.

Two style files can get one place.  `newPlace_eq_iff` says when: they are in one directory, have one
ending, and their stems are given one name.

* `Discovery.Found`: a file that has been found, by its path
* `Batch.newName_ne_style`, `Batch.newName_ne_test`: the kinds are apart
* `Batch.newPlace_eq_iff`: when two style files meet
-/

namespace Transplant

open Lexical

namespace Text

theorem occursIn_append (before part after : List Char) :
    occursIn part (before ++ (part ++ after)) = true := by
  induction before with
  | nil =>
    have hstart : part.isPrefixOf (part ++ after) = true := by simp
    rw [List.nil_append]
    cases hlist : part ++ after with
    | nil => simp_all [occursIn]
    | cons c rest =>
      rw [hlist] at hstart
      rw [occursIn, hstart, Bool.true_or]
  | cons c rest ih => rw [List.cons_append, occursIn, ih, Bool.or_true]

/-- What stands in the middle of a text stands somewhere in it. -/
theorem contains_of_split {s part : String} {before after : List Char}
    (h : s.toList = before ++ (part.toList ++ after)) : contains s part = true := by
  rw [contains, h]
  exact occursIn_append before part.toList after

theorem toList_lower (s : String) : (lower s).toList = s.toList.map Char.toLower := by
  rw [lower, String.toList_ofList]

end Text

namespace Path

theorem Ending.ne_empty {e : String} (h : Ending e) : e ≠ "" := by
  rintro rfl
  obtain ⟨rest, hrest, -⟩ := h.split
  cases hrest

/-- The ending of a name does not depend on the directories in front of it. -/
theorem suffix_congr {p q : Path} (h : p.name = q.name) : p.suffix = q.suffix := by
  rw [suffix, suffix, h]

/-- A name with an ending has something before it. -/
theorem stem_ne_empty {p : Path} (h : p.suffix ≠ "") : p.stem ≠ "" := by
  intro hstem
  unfold suffix at h
  cases hat : dotAt? p.name with
  | none => rw [hat] at h; exact h rfl
  | some i =>
    have hlist : p.name.toList.take i = [] := by
      rw [stem, hat] at hstem
      exact String.toList_eq_nil_iff.mpr hstem ▸ (String.toList_ofList).symm
    unfold dotAt? at hat
    simp only at hat
    split at hat
    · rename_i hdot
      obtain rfl := Option.some.inj hat
      simp only [Bool.and_eq_true, decide_eq_true_eq] at hdot
      have hlength := congrArg List.length hlist
      rw [List.length_take, List.length_nil] at hlength
      omega
    · cases hat

end Path

namespace Discovery

/-- A file that has been found among those whose names are wanted, by its path in the project. -/
structure Found (wanted : String → Bool) (source : String) : Prop where
  root : (Path.ofString source).root = ""
  name : (Path.ofString source).name ≠ ""
  wanted : wanted (Path.ofString source).name = true

variable {source : String}

theorem Found.slash {wanted : String → Bool} (h : Found wanted source) :
    '/' ∉ (Path.ofString source).name.toList :=
  (Path.mem_parts_ofString (Path.name_mem h.name)).2.2

/-- The ending of a component file. -/
theorem Found.ending (h : Found isComponent source) :
    Path.Ending (Path.ofString source).suffix ∧
      Text.lower (Path.ofString source).suffix ∈ componentEndings := by
  obtain ⟨hempty, hhere, hslash⟩ := Path.mem_parts_ofString (Path.name_mem h.name)
  have hwanted := h.wanted
  rw [isComponent, Bool.and_eq_true, List.contains_iff_mem,
    Path.ofString_of_component hempty hhere hslash,
    Path.suffix_congr (p := ⟨"", [_]⟩) (Path.name_concat "" [] _)] at hwanted
  refine ⟨(Path.suffix_cases h.slash).resolve_left fun hnone => ?_, hwanted.1⟩
  rw [hnone] at hwanted
  exact absurd hwanted.1 (by decide)

/-- No mark of a test is in the name of a component file. -/
theorem Found.unmarked (h : Found isComponent source) :
    Text.contains (Path.ofString source).name ".test." = false := by
  have hwanted := h.wanted
  rw [isComponent, Bool.and_eq_true, Bool.not_eq_true', List.any_eq_false] at hwanted
  exact Bool.eq_false_iff.mpr (hwanted.2 ".test." (by decide))

/-- The name of a style file ends like one. -/
theorem Found.styleEnding (h : Found isStyle source) :
    ∃ e ∈ Imports.styleEndings, e.toList <:+ (Text.lower (Path.ofString source).name).toList := by
  obtain ⟨e, he, hends⟩ := List.any_eq_true.mp h.wanted
  exact ⟨e, he, Text.endsWith_iff.mp hends⟩

end Discovery

open Discovery (Found isComponent isStyle componentEndings)

namespace Batch

variable {b : Batch} {source : String}

theorem newStem_ne_empty_of_suffix (h : b.RenamesToIdentifiers) (component : Option String)
    (hsuffix : (Path.ofString source).suffix ≠ "") : b.newStem source component ≠ "" := by
  rcases newStem_cases h source component with hstem | hident
  · rw [hstem]
    exact Path.stem_ne_empty hsuffix
  · exact (Text.chars_of_isIdentifier hident).1

/-- No text ends both like a component file and like a style file. -/
theorem endings_apart {e e' : String} (he : e ∈ componentEndings) (he' : e' ∈ Imports.styleEndings)
    {l : List Char} (h : e.toList <:+ l) (h' : e'.toList <:+ l) : False := by
  have hcompare : ∀ e ∈ componentEndings, ∀ e' ∈ Imports.styleEndings,
      ¬ e.toList <:+ e'.toList ∧ ¬ e'.toList <:+ e.toList := by decide
  rcases List.suffix_or_suffix_of_suffix h h' with hs | hs
  · exact (hcompare e he e' he').1 hs
  · exact (hcompare e he e' he').2 hs

/-- A file without an ending has no ending under its new name. -/
theorem newName_ne_of_no_suffix (h : b.RenamesToIdentifiers) (component : Option String)
    (hnone : (Path.ofString source).suffix = "") {t e : String} (ht : t ≠ "")
    (he : Path.Ending e) : t ++ e ≠ b.newName source component := by
  intro hsame
  rw [newName, hnone, String.append_empty] at hsame
  rcases newStem_cases h source component with hstem | hident
  · have hname : (Path.ofString source).name = t ++ e := by
      rw [← Path.stem_append_suffix, hnone, String.append_empty, hsame, hstem]
    exact he.ne_empty ((Path.stem_suffix_of_name he ht hname).2.symm.trans hnone)
  · obtain ⟨rest, hrest, -⟩ := he.split
    refine (Text.chars_of_isIdentifier hident).2.1 ?_
    rw [← hsame, String.toList_append, hrest]
    exact List.mem_append_right _ List.mem_cons_self

/-- **No script has the name that a style file gets.** -/
theorem newName_ne_style (h : b.RenamesToIdentifiers) {asset t e : String}
    (hasset : Found isStyle asset) (ht : t ≠ "") (he : Path.Ending e)
    (hknown : Text.lower e ∈ componentEndings) : t ++ e ≠ b.newName asset none := by
  obtain hnone | hending := Path.suffix_cases hasset.slash
  · exact newName_ne_of_no_suffix h none hnone ht he
  · rw [newName, ne_eq, Path.append_ending_inj he hending]
    rintro ⟨-, rfl⟩
    obtain ⟨e', he', hends⟩ := hasset.styleEnding
    refine endings_apart hknown he' ?_ hends
    rw [← (Path.ofString asset).stem_append_suffix, Text.toList_lower, Text.toList_lower,
      String.toList_append, List.map_append]
    exact List.suffix_append _ _

/-- **No component has the name of a test.** -/
theorem newName_ne_test (h : b.RenamesToIdentifiers) (hsource : Found isComponent source)
    (component : Option String) (n : String) {e : String} (he : Path.Ending e) :
    b.newName source component ≠ n ++ ".test" ++ e := by
  rw [newName, ne_eq, Path.append_ending_inj hsource.ending.1 he]
  rintro ⟨hstem, hsuffix⟩
  rcases newStem_cases h source component with hown | hident
  · -- the file would have been called like a test from the beginning
    obtain ⟨rest, hrest, -⟩ := he.split
    have hname : (Path.ofString source).name.toList = n.toList ++ (".test.".toList ++ rest) := by
      rw [← Path.stem_append_suffix, ← hown, hstem, hsuffix, String.toList_append,
        String.toList_append, hrest, show ".test.".toList = ".test".toList ++ ['.'] by decide,
        List.append_assoc, List.append_assoc, List.singleton_append]
    have hmarked := Text.contains_of_split hname
    rw [hsource.unmarked] at hmarked
    cases hmarked
  · refine (Text.chars_of_isIdentifier hident).2.1 ?_
    rw [hstem, String.toList_append]
    exact List.mem_append_right _ (by decide)

theorem newName_eq_iff (h : b.RenamesToIdentifiers) {a a' : String}
    (ha : '/' ∉ (Path.ofString a).name.toList) (ha' : '/' ∉ (Path.ofString a').name.toList) :
    b.newName a none = b.newName a' none ↔
      (Path.ofString a).suffix = (Path.ofString a').suffix ∧
        b.newStem a none = b.newStem a' none := by
  obtain hnone | hending := Path.suffix_cases ha <;>
    obtain hnone' | hending' := Path.suffix_cases ha'
  · rw [newName, newName, hnone, hnone', String.append_empty, String.append_empty]
    simp
  · refine ⟨fun hsame => ?_, fun hsame => ?_⟩
    · exact absurd hsame.symm (newName_ne_of_no_suffix h none hnone
        (newStem_ne_empty_of_suffix h none hending'.ne_empty) hending')
    · exact absurd (hsame.1.symm.trans hnone) hending'.ne_empty
  · refine ⟨fun hsame => ?_, fun hsame => ?_⟩
    · exact absurd hsame (newName_ne_of_no_suffix h none hnone'
        (newStem_ne_empty_of_suffix h none hending.ne_empty) hending)
    · exact absurd (hsame.1.trans hnone') hending.ne_empty
  · rw [newName, newName, Path.append_ending_inj hending hending', and_comm]

/-- Two style files of one directory with one ending, whose stems get one name. -/
def Converging (b : Batch) (a a' : String) : Prop :=
  (Path.ofString a).parent = (Path.ofString a').parent ∧
    (Path.ofString a).suffix = (Path.ofString a').suffix ∧
    b.newStem a none = b.newStem a' none

/-- **When two style files get one place.** -/
theorem newPlace_eq_iff (h : b.RenamesToIdentifiers) {a a' : String} (ha : Found isStyle a)
    (ha' : Found isStyle a') :
    b.newPlace a none = b.newPlace a' none ↔ b.Converging a a' := by
  rw [Converging, ← newName_eq_iff h ha.slash ha'.slash]
  constructor
  · intro hsame
    have hdirs := congrArg (·.parts.dropLast) hsame
    have hnames := congrArg Path.name hsame
    simp only [dropLast_newPlace] at hdirs
    rw [name_newPlace, name_newPlace] at hnames
    exact ⟨by rw [Path.parent, Path.parent, hdirs, ha.root, ha'.root], hnames⟩
  · rintro ⟨hdirs, hnames⟩
    have hparts := congrArg Path.parts hdirs
    dsimp only [Path.parent] at hparts
    rw [newPlace, newPlace, hnames, hparts, ha.root, ha'.root]

end Batch
end Transplant
