import Transplant.Proofs.Path.Lexical
import Transplant.Proofs.Specifier.Aliases
import Transplant.Proofs.Text.Order

/-!
# How a path is spelled through an alias

A path is spelled through the alias with the longest directory that the path begins with, and of
several such aliases through the least.  The code goes through the aliases in order and keeps the
best so far, which gives way only to a longer directory.  What is asked of the result is said here
by comparing it with every entry of the table, so that the order of the table plays no part.

The loop gives the first of the longest ones (`foldl_better_eq_some_iff`); as the aliases are gone
through in order, and no alias occurs twice, the first is the least.

* `Alias.Chosen`: the entry that a path should be spelled through
* `Alias.best?_eq_some_iff`: the loop finds it
* `Alias.splitAll_append_of_whole`: a directory that ends in a slash cuts no component
* `Alias.spelled_through_longest_directory`: the spelling of a path
-/

namespace Transplant

namespace Alias

/-! ## The first of the longest -/

/-- What the loop keeps: the first of the entries with the longest directory.  An entry that is
there from the beginning counts as standing in front. -/
theorem foldl_better_some {l : List (String × String)} {b e : String × String}
    (h : l.foldl better (some b) = some e) :
    (e = b ∧ ∀ f ∈ l, Text.size f.2 ≤ Text.size b.2) ∨
      Text.size b.2 < Text.size e.2 ∧ ∃ before after, l = before ++ e :: after ∧
        (∀ f ∈ before, Text.size f.2 < Text.size e.2) ∧
        ∀ f ∈ after, Text.size f.2 ≤ Text.size e.2 := by
  induction l generalizing b with
  | nil => exact .inl ⟨(Option.some.inj h).symm, nofun⟩
  | cons next rest ih =>
    rw [List.foldl_cons, better] at h
    split at h
    · rename_i hlonger
      rcases ih h with ⟨rfl, hrest⟩ | ⟨hlt, before, after, rfl, hbefore, hafter⟩
      · exact .inr ⟨hlonger, [], rest, rfl, nofun, hrest⟩
      · refine .inr ⟨by omega, next :: before, after, rfl, fun f hf => ?_, hafter⟩
        rcases List.mem_cons.mp hf with rfl | hf
        · exact hlt
        · exact hbefore f hf
    · rename_i hshort
      rcases ih h with ⟨rfl, hrest⟩ | ⟨hlt, before, after, rfl, hbefore, hafter⟩
      · refine .inl ⟨rfl, fun f hf => ?_⟩
        rcases List.mem_cons.mp hf with rfl | hf
        · omega
        · exact hrest f hf
      · refine .inr ⟨hlt, next :: before, after, rfl, fun f hf => ?_, hafter⟩
        rcases List.mem_cons.mp hf with rfl | hf
        · omega
        · exact hbefore f hf

theorem foldl_better_cases_of_none {l : List (String × String)} {e : String × String}
    (h : l.foldl better none = some e) :
    ∃ before after, l = before ++ e :: after ∧ (∀ f ∈ before, Text.size f.2 < Text.size e.2) ∧
      ∀ f ∈ after, Text.size f.2 ≤ Text.size e.2 := by
  cases l with
  | nil => cases h
  | cons first rest =>
    rcases foldl_better_some h with ⟨rfl, hrest⟩ | ⟨hlt, before, after, rfl, hbefore, hafter⟩
    · exact ⟨[], rest, rfl, nofun, hrest⟩
    · refine ⟨first :: before, after, rfl, fun f hf => ?_, hafter⟩
      rcases List.mem_cons.mp hf with rfl | hf
      · exact hlt
      · exact hbefore f hf

theorem exists_foldl_better (b : String × String) (l : List (String × String)) :
    ∃ e, l.foldl better (some b) = some e := by
  induction l generalizing b with
  | nil => exact ⟨b, rfl⟩
  | cons next rest ih =>
    rw [List.foldl_cons, better]
    split
    · exact ih next
    · exact ih b

theorem foldl_better_eq_none_iff {l : List (String × String)} :
    l.foldl better none = none ↔ l = [] := by
  cases l with
  | nil => exact iff_of_true rfl rfl
  | cons first rest =>
    obtain ⟨e, he⟩ := exists_foldl_better first rest
    rw [List.foldl_cons, better, he]
    exact iff_of_false nofun nofun

/-! ## The entry for a path -/

/-- The entry that a path should be spelled through: the path begins with its directory, no entry
has a longer directory that the path begins with, and none with an equally long one has a lesser
alias. -/
structure Chosen (entries : List (String × String)) (path : String) (e : String × String) :
    Prop where
  mem : e ∈ entries
  leads : ∃ rest, path = e.2 ++ rest
  longest : ∀ f ∈ entries, (∃ rest, path = f.2 ++ rest) → Text.size f.2 ≤ Text.size e.2
  least : ∀ f ∈ entries, (∃ rest, path = f.2 ++ rest) → Text.size f.2 = Text.size e.2 →
    Text.notAfter e.1 f.1 = true

variable {aliases other : Table String} {path : String} {e : String × String}

theorem leads_iff {lead : String} :
    Text.startsWith path lead = true ↔ ∃ rest, path = lead ++ rest :=
  ⟨fun h => ⟨_, (Text.append_drop h).symm⟩, fun ⟨rest, hrest⟩ =>
    hrest ▸ Text.startsWith_append lead rest⟩

/-- There is only one such entry, as no alias occurs twice. -/
theorem Chosen.unique {f : String × String} (he : Chosen aliases.entries path e)
    (hf : Chosen aliases.entries path f) : e = f := by
  have hsize : Text.size e.2 = Text.size f.2 :=
    Nat.le_antisymm (hf.longest e he.mem he.leads) (he.longest f hf.mem hf.leads)
  have halias : e.1 = f.1 := Text.notAfter_antisymm (he.least f hf.mem hf.leads hsize.symm)
    (hf.least e he.mem he.leads hsize)
  exact List.inj_on_of_nodup_map aliases.distinct he.mem hf.mem halias

theorem Chosen.congr (h : Chosen aliases.entries path e)
    (hperm : other.entries.Perm aliases.entries) : Chosen other.entries path e where
  mem := hperm.mem_iff.mpr h.mem
  leads := h.leads
  longest f hf := h.longest f (hperm.mem_iff.mp hf)
  least f hf := h.least f (hperm.mem_iff.mp hf)

theorem mem_candidates_iff (aliases : Table String) (path : String) (f : String × String) :
    f ∈ ((sorted aliases).filter fun e => Text.startsWith path e.2) ↔
      f ∈ aliases.entries ∧ ∃ rest, path = f.2 ++ rest := by
  rw [List.mem_filter, leads_iff, sorted, List.mem_mergeSort]

theorem pairwise_sorted (aliases : Table String) :
    (sorted aliases).Pairwise fun a b => Text.notAfter a.1 b.1 = true := by
  have htrans (a b c : String × String) : Text.notAfter a.1 b.1 = true →
      Text.notAfter b.1 c.1 = true → Text.notAfter a.1 c.1 = true := Text.notAfter_trans
  have htotal (a b : String × String) : (Text.notAfter a.1 b.1 || Text.notAfter b.1 a.1) = true :=
    Text.notAfter_total a.1 b.1
  exact List.pairwise_mergeSort htrans htotal aliases.entries

theorem chosen_of_best? (h : best? aliases path = some e) : Chosen aliases.entries path e := by
  have hordered := (pairwise_sorted aliases).filter fun e => Text.startsWith path e.2
  have hmem := mem_candidates_iff aliases path
  obtain ⟨before, after, hsplit, hbefore, hafter⟩ := foldl_better_cases_of_none h
  rw [hsplit] at hordered hmem
  have hself := (hmem e).mp (List.mem_append_right _ List.mem_cons_self)
  refine ⟨hself.1, hself.2, fun f hf hleads => ?_, fun f hf hleads hsize => ?_⟩
  · rcases List.mem_append.mp ((hmem f).mpr ⟨hf, hleads⟩) with hin | hin
    · exact Nat.le_of_lt (hbefore f hin)
    · rcases List.mem_cons.mp hin with rfl | hin
      · exact Nat.le_refl _
      · exact hafter f hin
  · rcases List.mem_append.mp ((hmem f).mpr ⟨hf, hleads⟩) with hin | hin
    · exact absurd hsize (Nat.ne_of_lt (hbefore f hin))
    · rcases List.mem_cons.mp hin with rfl | hin
      · exact Text.notAfter_refl _
      · exact (List.pairwise_cons.mp (List.pairwise_append.mp hordered).2.1).1 f hin

theorem best?_eq_none_iff :
    best? aliases path = none ↔ ∀ f ∈ aliases.entries, ¬∃ rest, path = f.2 ++ rest := by
  rw [best?, foldl_better_eq_none_iff, List.eq_nil_iff_forall_not_mem]
  simp only [mem_candidates_iff, not_and]

/-- **The loop finds the entry that a path should be spelled through.** -/
theorem best?_eq_some_iff : best? aliases path = some e ↔ Chosen aliases.entries path e := by
  refine ⟨chosen_of_best?, fun h => ?_⟩
  cases hbest : best? aliases path with
  | none => exact absurd h.leads (best?_eq_none_iff.mp hbest e h.mem)
  | some f => exact congrArg some ((chosen_of_best? hbest).unique h)

theorem best?_perm (h : other.entries.Perm aliases.entries) :
    best? other path = best? aliases path := by
  refine Option.ext fun e => ?_
  rw [best?_eq_some_iff, best?_eq_some_iff]
  exact ⟨fun he => he.congr h.symm, fun he => he.congr h⟩

/-! ## Directories of whole components -/

/-- The directories that a project declares end in a slash, but for the project itself. -/
theorem directory_of_mem_ofPaths {paths : Table Value} {base : String}
    (he : e ∈ (ofPaths paths base).entries) : e.2 = "" ∨ Text.endsWith e.2 "/" = true := by
  obtain ⟨entry, -, hentry⟩ := List.mem_filterMap.mp (Table.mem_of_mem_ofPairs he)
  unfold ofMapping? at hentry
  split at hentry
  · obtain ⟨d, hd, rfl⟩ := Option.map_eq_some_iff.mp hentry
    exact directory?_cases hd
  · cases hentry

/-- **A directory that ends in a slash cuts no component in two.**  What stands behind it in a path
begins with a component of its own. -/
theorem splitAll_append_of_whole {d : String} (h : d = "" ∨ Text.endsWith d "/" = true)
    (rest : String) :
    Text.splitAll '/' (d ++ rest) = (Text.splitAll '/' d).dropLast ++ Text.splitAll '/' rest := by
  rcases h with rfl | h
  · rw [String.empty_append, Text.splitAll_empty]
    rfl
  · obtain ⟨l, hl⟩ := Text.endsWith_iff.mp h
    obtain rfl : d = String.ofList l ++ "/" := by
      rw [← String.toList_inj, String.toList_append, String.toList_ofList, hl]
    have hempty := Text.splitAll_append_slash (String.ofList l) ""
    rw [String.append_empty, Text.splitAll_empty] at hempty
    rw [Text.splitAll_append_slash, hempty, List.dropLast_concat]

/-! ## The spelling of a path -/

/-- **A path is spelled through the longest directory that it begins with.**  There is a spelling
unless the path begins with no directory of the table.  It is made from the entry with the longest
directory, and of several from the one with the least alias: the alias stands in place of the
directory, and the rest of the path is kept.  The order of the table plays no part.  The directories
that a project declares are whole: the components of a path are those of the directory, followed by
those of the rest. -/
theorem spelled_through_longest_directory (aliases : Table String) (path : String) :
    (spell? path aliases = none ↔ ∀ e ∈ aliases.entries, ¬∃ rest, path = e.2 ++ rest) ∧
    (∀ spelling, spell? path aliases = some spelling ↔
      ∃ e rest, Chosen aliases.entries path e ∧ path = e.2 ++ rest ∧ spelling = e.1 ++ rest) ∧
    (∀ other : Table String, other.entries.Perm aliases.entries →
      spell? path other = spell? path aliases) ∧
    ∀ (paths : Table Value) (base : String), ∀ e ∈ (ofPaths paths base).entries,
      (e.2 = "" ∨ Text.endsWith e.2 "/" = true) ∧
      ∀ rest, Text.splitAll '/' (e.2 ++ rest) =
        (Text.splitAll '/' e.2).dropLast ++ Text.splitAll '/' rest := by
  refine ⟨?_, fun spelling => ?_, fun other hperm => ?_, fun paths base e he => ?_⟩
  · rw [spell?, Option.map_eq_none_iff]
    exact best?_eq_none_iff
  · rw [spell?, Option.map_eq_some_iff]
    constructor
    · rintro ⟨e, he, rfl⟩
      have hchosen := best?_eq_some_iff.mp he
      obtain ⟨rest, rfl⟩ := hchosen.leads
      exact ⟨e, rest, hchosen, rfl, by rw [Text.drop_append_size]⟩
    · rintro ⟨e, rest, hchosen, rfl, rfl⟩
      exact ⟨e, best?_eq_some_iff.mpr hchosen, by rw [Text.drop_append_size]⟩
  · rw [spell?, spell?, best?_perm hperm]
  · have hwhole := directory_of_mem_ofPaths he
    exact ⟨hwhole, splitAll_append_of_whole hwhole⟩

end Alias
end Transplant
