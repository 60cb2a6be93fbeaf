import Transplant.Proofs.Plan.Respelling

/-!
# Looking up a file of the batch

A specifier leads to a text, and the files that the text can stand for are made by writing something
behind it: nothing, an ending, or the index of a directory.  They are then looked for among the
files of the batch, which are spelled as paths of the source project: relative and normalized.

Writing behind a normalized text gives a normalized text as long as the last component is a name
(`normalCandidates_eq`).  There is one text inside the project whose last component is none.  The
root of the project is spelled `.`, and `./index.jsx` is not how its index is spelled.

Besides, texts that begin with two dots are taken to lead out of the project, and not all of them
do: `..foo` is a name.  So a file that is meant can be passed over in two ways (`Overlooks`), and by
`file?_eq_meant?_iff` in no other.

* `Batch.Normal`: a batch whose files are spelled as paths of the source project
* `Batch.meant?`: the first file of the batch that a specifier can stand for
* `Batch.file?_eq_meant?_iff`: when that file is found
* `Batch.root_index_overlooked`: an index that is not found
-/

namespace Transplant

open Lexical

namespace Lexical

theorem normalize_normalize (s : String) : normalize (normalize s) = normalize s :=
  normalize_eq_iff.mpr ⟨rootOf_normalize s, components_normalize s⟩

/-- The text leads to the directory above, or from there on. -/
def LeadsUp (s : String) : Prop := s = ".." ∨ Text.startsWith s "../" = true

instance (s : String) : Decidable (LeadsUp s) := inferInstanceAs (Decidable (_ ∨ _))

/-- A normalized relative text that does not lead up is made of names. -/
theorem named_of_not_leadsUp {s : String} (hroot : rootOf s = "") (h : ¬LeadsUp (normalize s)) :
    ∀ q ∈ components s, Named q := by
  have hcomponents : components s = (travel false [] (Text.splitAll '/' s)).reverse := by
    rw [components_eq, hroot]
    rfl
  obtain ⟨up, names, hway, hnames⟩ := exists_ups (Text.splitAll '/' s)
  rw [← hcomponents] at hway
  cases up with
  | zero =>
    rw [hway]
    exact hnames
  | succ up =>
    exfalso
    apply h
    rw [List.replicate_succ, List.cons_append] at hway
    have htext : normalize s = Text.join "/" (".." :: (List.replicate up ".." ++ names)) := by
      obtain ⟨-, hnil, -⟩ | ⟨-, htext⟩ := normalize_cases s
      · rw [hway] at hnil
        cases hnil
      · rw [htext, hroot, hway, String.empty_append]
    rcases hrest : List.replicate up ".." ++ names with _ | ⟨q, rest⟩
    · left
      rw [htext, hrest]
      rfl
    · right
      rw [htext, hrest, Text.join_cons_cons, Text.startsWith_iff, String.toList_append]
      exact List.prefix_append _ _

/-- Nothing that is written behind an absolute text makes it relative. -/
theorem rootOf_append_ne {s : String} (h : rootOf s ≠ "") (tail : String) :
    rootOf (s ++ tail) ≠ "" := by
  have hslash : s.toList.head? = some '/' := by
    by_contra hhead
    exact h (rootOf_of_unrooted hhead)
  intro hroot
  refine unrooted_of_rootOf hroot ?_
  rw [String.toList_append, List.head?_append, hslash, Option.some_or]

end Lexical

namespace Batch

/-- A batch whose files are spelled as paths of the source project are: relative and normalized. -/
structure Normal (b : Batch) : Prop where
  root : ∀ f ∈ b.files ++ b.assets, rootOf f = ""
  text : ∀ f ∈ b.files ++ b.assets, normalize f = f

instance (b : Batch) : Decidable b.Normal :=
  decidable_of_iff ((∀ f ∈ b.files ++ b.assets, rootOf f = "") ∧
      ∀ f ∈ b.files ++ b.assets, normalize f = f)
    ⟨fun h => ⟨h.1, h.2⟩, fun h => ⟨h.root, h.text⟩⟩

/-- The files that a text can stand for, spelled as paths of the source project. -/
def normalCandidates (base : String) : List Sibling :=
  (candidates base).map fun c => { c with path := normalize c.path }

/-- The first file of the batch that a specifier in a file can stand for. -/
def meant? (b : Batch) (source specifier : String) : Option Sibling :=
  (normalCandidates (baseOf source specifier)).find? b.has

/-- The batch has a file that the text stands for, and the look-up passes over it: the text begins
with two dots, or it is the root and the file is its index. -/
def Overlooks (b : Batch) (base : String) : Prop :=
  (Text.startsWith base ".." = true ∧ ∃ c ∈ candidates base, b.has c = true) ∨
  (base = "." ∧ (∃ e ∈ sourceEndings, "index" ++ e ∈ b.files) ∧
    ∀ c ∈ candidates base, b.has c = false)

instance (b : Batch) (base : String) : Decidable (b.Overlooks base) :=
  inferInstanceAs (Decidable (_ ∨ _))

variable {b : Batch} {s : String} {c : Sibling}

theorem mem_of_has (h : b.has c = true) : c.path ∈ b.files ++ b.assets := by
  simp only [has, Bool.or_eq_true, Bool.and_eq_true, List.contains_eq_mem, decide_eq_true_eq] at h
  exact List.mem_append.mpr (h.imp_right And.right)

@[simp] theorem has_index {path : String} : b.has ⟨path, .index⟩ = b.files.contains path := by
  simp [has]

/-! ## How candidates are spelled -/

/-- What stands behind a name inside the project is spelled as a path of the project. -/
theorem normalize_candidate (hne : components s ≠ []) (hnamed : ∀ q ∈ components s, Named q)
    (hc : c ∈ candidates (normalize s)) : normalize c.path = c.path := by
  rcases mem_candidates.mp hc with rfl | ⟨e, he, rfl⟩ | ⟨e, he, rfl⟩
  · exact normalize_normalize s
  · have hsplit := (List.dropLast_concat_getLast hne).symm
    obtain ⟨hroot', hparts⟩ := components_append_ending (ending_of_mem he) hsplit
      (hnamed _ (List.getLast_mem hne))
    rw [Path.normalize_eq_toString, hroot', hparts, ← Path.toString_concat_append, ← hsplit,
      ← Path.normalize_eq_toString]
  · have hslash : '/' ∉ ("index" ++ e).toList := by
      rw [String.toList_append, List.mem_append, not_or]
      exact ⟨by decide, (ending_of_mem he).slash⟩
    obtain ⟨hroot', hparts⟩ := components_append_component
      ((ending_of_mem he).named (by decide)) hslash hne
    rw [Path.normalize_eq_toString, hroot', hparts, ← Path.toString_append_component _ hne,
      ← Path.normalize_eq_toString]

/-- **Below the root of the project, candidates are spelled as paths of the project.** -/
theorem normalCandidates_eq (hroot : rootOf s = "") (hne : components s ≠ [])
    (hup : ¬LeadsUp (normalize s)) :
    normalCandidates (normalize s) = candidates (normalize s) := by
  have hnamed := named_of_not_leadsUp hroot hup
  refine (List.map_congr_left fun c hc => ?_).trans (List.map_id _)
  rw [normalize_candidate hne hnamed hc]
  rfl

/-- The candidates of an absolute text are absolute. -/
theorem rootOf_candidate (hroot : rootOf s ≠ "") (hc : c ∈ candidates s) : rootOf c.path ≠ "" := by
  rcases mem_candidates.mp hc with rfl | ⟨e, he, rfl⟩ | ⟨e, he, rfl⟩
  · exact hroot
  · exact rootOf_append_ne hroot e
  · rw [String.append_assoc]
    exact rootOf_append_ne hroot _

/-- A batch has no file at an absolute text. -/
theorem has_eq_false_of_absolute (h : b.Normal) (hroot : rootOf s ≠ "") :
    (∀ c ∈ candidates s, b.has c = false) ∧ ∀ c ∈ normalCandidates s, b.has c = false := by
  have habsent : ∀ c : Sibling, rootOf c.path ≠ "" → b.has c = false := fun c hc =>
    Bool.eq_false_iff.mpr fun hhas => hc (h.root _ (mem_of_has hhas))
  refine ⟨fun c hc => habsent c (rootOf_candidate hroot hc), fun c hc => ?_⟩
  obtain ⟨d, hd, rfl⟩ := List.mem_map.mp hc
  refine habsent _ ?_
  rw [rootOf_normalize]
  exact rootOf_candidate hroot hd

/-! ## The root of the project -/

/-- The candidates of the root other than its index. -/
def rootFiles : List Sibling :=
  ⟨".", .exact⟩ :: sourceEndings.map fun e => ⟨"." ++ e, .extension⟩

theorem candidates_root :
    candidates "." = rootFiles ++ sourceEndings.map fun e => ⟨"./" ++ ("index" ++ e), .index⟩ := by
  decide

theorem normalCandidates_root :
    normalCandidates "." = rootFiles ++ sourceEndings.map fun e => ⟨"index" ++ e, .index⟩ := by
  decide

/-- The index of the root is not looked for as it is spelled. -/
theorem has_index_root (h : b.Normal) {e : String} (he : e ∈ sourceEndings) :
    b.has ⟨"./" ++ ("index" ++ e), .index⟩ = false := by
  refine Bool.eq_false_iff.mpr fun hhas => ?_
  have htext := h.text _ (mem_of_has hhas)
  simp only [sourceEndings, List.mem_cons, List.not_mem_nil, or_false] at he
  rcases he with rfl | rfl | rfl | rfl <;> exact absurd htext (by decide)

theorem find?_candidates_root (h : b.Normal) :
    (candidates ".").find? b.has = rootFiles.find? b.has := by
  have hnone : (sourceEndings.map fun e => (⟨"./" ++ ("index" ++ e), .index⟩ : Sibling)).find?
      b.has = none := by
    rw [List.find?_eq_none]
    intro c hc
    obtain ⟨e, he, rfl⟩ := List.mem_map.mp hc
    rw [has_index_root h he]
    decide
  rw [candidates_root, List.find?_append, hnone, Option.or_none]

/-! ## What is found -/

/-- What is overlooked is meant, and nothing is found in its place. -/
theorem file?_of_overlooks {source specifier : String} (hup : ¬LeadsUp (baseOf source specifier))
    (hover : b.Overlooks (baseOf source specifier)) :
    b.file? source specifier = none ∧ (b.meant? source specifier).isSome = true := by
  obtain ⟨hdots, c, hc, hhas⟩ | ⟨hhere, ⟨e, he, hindex⟩, hnone⟩ := hover
  · refine ⟨by simp [file?, hdots], ?_⟩
    obtain ⟨s, hbase⟩ : ∃ s, baseOf source specifier = normalize s := ⟨_, rfl⟩
    rw [hbase] at hdots hc hup
    -- two dots in front are neither a root nor the root of the project
    have hroot : rootOf s = "" := by
      rw [← rootOf_normalize]
      obtain ⟨tail, htail⟩ := Text.startsWith_iff.mp hdots
      refine rootOf_of_unrooted ?_
      rw [Unrooted, ← htail]
      simp
    have hne : components s ≠ [] := by
      intro hnil
      obtain ⟨-, -, htext⟩ | ⟨hroots, -⟩ := normalize_cases s
      · rw [htext] at hdots
        exact absurd hdots (by decide)
      · exact hroots ⟨hroot, hnil⟩
    rw [meant?, hbase, normalCandidates_eq hroot hne hup, List.find?_isSome]
    exact ⟨c, hc, hhas⟩
  · refine ⟨?_, ?_⟩
    · simp only [file?]
      split
      · rfl
      · rw [List.find?_eq_none]
        exact fun c hc => by simp [hnone c hc]
    · rw [meant?, hhere, normalCandidates_root, List.find?_isSome]
      exact ⟨_, List.mem_append_right _ (List.mem_map_of_mem he), by simpa using hindex⟩

/-- What is not overlooked is found. -/
theorem file?_of_not_overlooks (h : b.Normal) {source specifier : String}
    (hup : ¬LeadsUp (baseOf source specifier)) (hover : ¬b.Overlooks (baseOf source specifier)) :
    b.file? source specifier = b.meant? source specifier := by
  obtain ⟨s, hbase⟩ : ∃ s, baseOf source specifier = normalize s := ⟨_, rfl⟩
  simp only [file?, meant?]
  rw [hbase] at hup hover ⊢
  by_cases hroot : rootOf s = ""
  swap
  · obtain ⟨hplain, hnormal⟩ := has_eq_false_of_absolute h (s := normalize s)
      (by rwa [rootOf_normalize])
    have hnone : ∀ {l : List Sibling}, (∀ c ∈ l, b.has c = false) → l.find? b.has = none :=
      fun hl => List.find?_eq_none.mpr fun c hc => by simp [hl c hc]
    rw [hnone hplain, hnone hnormal, ite_self]
  by_cases hne : components s = []
  · -- the root of the project
    have hhere : normalize s = "." := by
      obtain ⟨-, -, htext⟩ | ⟨hroots, -⟩ := normalize_cases s
      · exact htext
      · exact absurd ⟨hroot, hne⟩ hroots
    rw [hhere] at hover ⊢
    rw [if_neg (by decide), find?_candidates_root h, normalCandidates_root, List.find?_append]
    cases hfound : rootFiles.find? b.has with
    | some c => rfl
    | none =>
      have hnone : ∀ c ∈ candidates ".", b.has c = false := by
        rw [← find?_candidates_root h, List.find?_eq_none] at hfound
        exact fun c hc => Bool.eq_false_iff.mpr (hfound c hc)
      rw [Option.none_or, eq_comm, List.find?_eq_none]
      intro c hc hhas
      obtain ⟨e, he, rfl⟩ := List.mem_map.mp hc
      exact hover (Or.inr ⟨rfl, ⟨e, he, by simpa using hhas⟩, hnone⟩)
  · rw [normalCandidates_eq hroot hne hup]
    split
    · rename_i hdots
      rw [eq_comm, List.find?_eq_none]
      exact fun c hc hhas => hover (Or.inl ⟨hdots, c, hc, hhas⟩)
    · rfl

/-- **The first file that a specifier can stand for is found unless it is overlooked**: unless the
specifier leads to a name that begins with two dots, or to the root of the project and the file is
its index. -/
theorem file?_eq_meant?_iff (h : b.Normal) {source specifier : String}
    (hup : ¬LeadsUp (baseOf source specifier)) :
    b.file? source specifier = b.meant? source specifier ↔
      ¬b.Overlooks (baseOf source specifier) := by
  refine ⟨fun hsame hover => ?_, file?_of_not_overlooks h hup⟩
  obtain ⟨hnone, hsome⟩ := file?_of_overlooks hup hover
  rw [← hsame, hnone] at hsome
  cases hsome

/-- A batch with an index in its root and one in a directory. -/
def indexed : Batch where
  files := ["A.jsx", "index.jsx", "ui/index.tsx", "..rest.jsx"]

/-- The index of a directory is found behind a detour. -/
theorem inner_index_found :
    indexed.Normal ∧ ¬LeadsUp (baseOf "A.jsx" "./ui/../ui/") ∧
      indexed.meant? "A.jsx" "./ui/../ui/" = some ⟨"ui/index.tsx", .index⟩ ∧
      indexed.file? "A.jsx" "./ui/../ui/" = some ⟨"ui/index.tsx", .index⟩ := by
  have hnormal : indexed.Normal := by decide
  have hup : ¬LeadsUp (baseOf "A.jsx" "./ui/../ui/") := by decide
  have hmeant : indexed.meant? "A.jsx" "./ui/../ui/" = some ⟨"ui/index.tsx", .index⟩ := by
    decide
  refine ⟨hnormal, hup, hmeant, ?_⟩
  rw [← hmeant]
  exact (file?_eq_meant?_iff hnormal hup).mpr (by decide)

/-- The index of the root is meant by `.`, and a name that begins with two dots by itself; neither
is found. -/
theorem root_index_overlooked :
    indexed.Normal ∧ ¬LeadsUp (baseOf "A.jsx" ".") ∧ ¬LeadsUp (baseOf "A.jsx" "./..rest") ∧
      indexed.meant? "A.jsx" "." = some ⟨"index.jsx", .index⟩ ∧
      indexed.file? "A.jsx" "." = none ∧
      indexed.meant? "A.jsx" "./..rest" = some ⟨"..rest.jsx", .extension⟩ ∧
      indexed.file? "A.jsx" "./..rest" = none := by
  refine ⟨?_, ?_, ?_, ?_, ?_, ?_, ?_⟩ <;> decide

end Batch
end Transplant
