import Transplant.Plan.Siblings
import Transplant.Text.Identifier
import Transplant.Proofs.Path.Pure

/-!
# The places of the files of a batch

A file gets the place that is given for it, or else a new name in its own directory.  The new name
is made of the old ending and of `newStem`, which is the only part that depends on who asks: the
plan of a component knows what the component is called, and an importer of the file does not.

`targetOf_cases` says this as one statement.  It needs a batch as configurations describe them, with
identifiers for new names, and all that is said later about places goes through it.

* `Batch.Sound`: what is checked before a batch is made
* `Batch.targetOf_cases`, `Batch.targetOf_of_none`: the two ways to a place
* `Batch.plan_cases`: the place in a plan
* `Batch.Below`: files that do not leave the root
-/

namespace Transplant

open Lexical

namespace Text

theorem mem_of_allButNewline {allowed : Char → Bool} {l : List Char} {c : Char}
    (h : allButNewline allowed l = true) (hc : c ∈ l) : allowed c = true ∨ c = '\n' := by
  induction l with
  | nil => exact absurd hc List.not_mem_nil
  | cons first rest ih =>
    by_cases hlast : first = '\n' ∧ rest = []
    · obtain ⟨rfl, rfl⟩ := hlast
      exact Or.inr (List.mem_singleton.mp hc)
    · rw [allButNewline.eq_3 _ _ _ fun h₁ h₂ => hlast ⟨h₁, h₂⟩, Bool.and_eq_true] at h
      rcases List.mem_cons.mp hc with rfl | hc
      · exact Or.inl h.1
      · exact ih h.2 hc

/-- An identifier begins with something, and neither dots nor slashes stand in it. -/
theorem chars_of_isIdentifier {s : String} (h : isIdentifier s = true) :
    s ≠ "" ∧ '.' ∉ s.toList ∧ '/' ∉ s.toList := by
  unfold isIdentifier isNameOf at h
  split at h
  · exact absurd h Bool.false_ne_true
  · rename_i c rest hs
    rw [Bool.and_eq_true] at h
    have hchar : ∀ a ∈ s.toList, inName a = true ∨ a = '\n' := by
      intro a ha
      rcases List.mem_cons.mp (hs ▸ ha) with rfl | ha
      · exact Or.inl (by simp [inName, h.1])
      · exact mem_of_allButNewline h.2 ha
    refine ⟨?_, fun hdot => ?_, fun hslash => ?_⟩
    · rintro rfl
      exact List.cons_ne_nil c rest hs.symm
    · rcases hchar _ hdot with h | h
      · exact absurd h (by decide)
      · exact absurd h (by decide)
    · rcases hchar _ hslash with h | h
      · exact absurd h (by decide)
      · exact absurd h (by decide)

/-- What begins with an identifier is more than dots. -/
theorem named_of_isIdentifier {s : String} (h : isIdentifier s = true) (tail : String) :
    Named (s ++ tail) := by
  obtain ⟨hempty, hdot, -⟩ := chars_of_isIdentifier h
  obtain ⟨c, rest, hc⟩ :=
    List.exists_cons_of_ne_nil fun h0 => hempty (String.toList_eq_nil_iff.mp h0)
  have htext : (s ++ tail).toList = c :: (rest ++ tail.toList) := by
    rw [String.toList_append, hc, List.cons_append]
  have hfirst : c ≠ '.' := fun h0 => hdot (hc ▸ h0 ▸ List.mem_cons_self)
  constructor <;> intro h0 <;> rw [h0] at htext
  · exact List.cons_ne_nil _ _ htext.symm
  · exact hfirst (List.cons.inj htext).1.symm
  · exact hfirst (List.cons.inj htext).1.symm

end Text

namespace Path

theorem name_mem {p : Path} (h : p.name ≠ "") : p.name ∈ p.parts := by
  unfold name at h ⊢
  cases hlast : p.parts.getLast? with
  | none => exact absurd (by rw [hlast]; rfl) h
  | some n => exact List.mem_of_getLast? hlast

theorem mem_name_of_mem_suffix {p : Path} {c : Char} (h : c ∈ p.suffix.toList) :
    c ∈ p.name.toList := by
  rw [← p.stem_append_suffix, String.toList_append]
  exact List.mem_append_right _ h

theorem mem_name_of_mem_stem {p : Path} {c : Char} (h : c ∈ p.stem.toList) :
    c ∈ p.name.toList := by
  rw [← p.stem_append_suffix, String.toList_append]
  exact List.mem_append_left _ h

/-- A place strictly below a directory, at which a file can stand that is named by its stem. -/
structure Inner (p : Path) : Prop where
  root : p.root = ""
  nonempty : p.parts ≠ []
  parts : ∀ q ∈ p.parts, Named q
  stem : Named p.stem

end Path

namespace Batch

/-- A batch as it is configured: the target is a path, new names are identifiers, and the directory
for the batch has one component. -/
structure Sound (b : Batch) : Prop where
  targetDir : b.targetDir.Sound
  renames : ∀ old new, b.naming.renames.get? old = some new → Text.isIdentifier new = true
  suffix : '/' ∉ b.naming.suffix.toList

/-- New names are identifiers. -/
def RenamesToIdentifiers (b : Batch) : Prop :=
  ∀ old new, b.naming.renames.get? old = some new → Text.isIdentifier new = true

variable {b : Batch}

/-! ## The root -/

theorem named_directory (b : Batch) : Named b.naming.directory := by
  refine named_of_length ?_
  rw [Naming.directory, Naming.directoryFor, String.toList_append, List.length_append]
  exact Nat.lt_add_right _ (by decide)

/-- The last component of the root is the directory for the batch. -/
theorem parts_root (h : b.Sound) : ∃ above, b.root.parts = above ++ [b.naming.directory] := by
  have hslash : '/' ∉ b.naming.directory.toList := by
    intro hmem
    rw [Naming.directory, Naming.directoryFor, String.toList_append] at hmem
    rcases List.mem_append.mp hmem with hmem | hmem
    · exact absurd hmem (by decide)
    · exact h.suffix hmem
  have hread :=
    Path.ofString_of_component b.named_directory.ne_empty b.named_directory.ne_here hslash
  refine ⟨(b.targetDir.child b.naming.subdir.shown).parts, ?_⟩
  rw [root, Path.child, hread, Path.append_of_relative rfl]

theorem sound_root (h : b.Sound) : b.root.Sound :=
  Path.sound_append (Path.sound_append h.targetDir (Path.sound_ofString _)) (Path.sound_ofString _)

/-! ## Places -/

/-- The stem that a file gets in its own directory. -/
def newStem (b : Batch) (source : String) (component : Option String) : String :=
  let stem := (Path.ofString source).stem
  if component.all (· == stem) then (b.naming.renames.get? stem).getD stem else stem

/-- The new name of a file in its own directory. -/
def newName (b : Batch) (source : String) (component : Option String) : String :=
  b.newStem source component ++ (Path.ofString source).suffix

/-- The place of a file under its new name in its own directory. -/
def newPlace (b : Batch) (source : String) (component : Option String) : Path :=
  ⟨(Path.ofString source).root,
    (Path.ofString source).parts.dropLast ++ [b.newName source component]⟩

@[simp] theorem root_newPlace (b : Batch) (source : String) (component : Option String) :
    (b.newPlace source component).root = (Path.ofString source).root := rfl

@[simp] theorem name_newPlace (b : Batch) (source : String) (component : Option String) :
    (b.newPlace source component).name = b.newName source component := Path.name_concat _ _ _

@[simp] theorem dropLast_newPlace (b : Batch) (source : String) (component : Option String) :
    (b.newPlace source component).parts.dropLast = (Path.ofString source).parts.dropLast :=
  List.dropLast_concat

theorem newStem_cases (h : b.RenamesToIdentifiers) (source : String) (component : Option String) :
    b.newStem source component = (Path.ofString source).stem ∨
      Text.isIdentifier (b.newStem source component) = true := by
  simp only [newStem]
  split
  · cases hget : b.naming.renames.get? (Path.ofString source).stem with
    | none => exact Or.inl rfl
    | some new => exact Or.inr (h _ new hget)
  · exact Or.inl rfl

@[simp] theorem newStem_none (b : Batch) (source : String) :
    b.newStem source none = (b.naming.renames.get? (Path.ofString source).stem).getD
      (Path.ofString source).stem := rfl

theorem newStem_some (b : Batch) (source component : String) :
    b.newStem source (some component) =
      if component = (Path.ofString source).stem then b.newStem source none
      else (Path.ofString source).stem := by
  simp [newStem]

/-- A new name is one component of a path. -/
theorem newName_component (h : b.RenamesToIdentifiers) {source : String} (component : Option String)
    (hname : (Path.ofString source).name ≠ "") :
    b.newName source component ≠ "" ∧ b.newName source component ≠ "." ∧
      '/' ∉ (b.newName source component).toList := by
  have hown := Path.mem_parts_ofString (Path.name_mem hname)
  rcases newStem_cases h source component with hstem | hident
  · rw [newName, hstem, Path.stem_append_suffix]
    exact hown
  · have hnamed := Text.named_of_isIdentifier hident (Path.ofString source).suffix
    refine ⟨hnamed.ne_empty, hnamed.ne_here, fun hmem => ?_⟩
    rw [newName, String.toList_append] at hmem
    rcases List.mem_append.mp hmem with hmem | hmem
    · exact (Text.chars_of_isIdentifier hident).2.2 hmem
    · exact hown.2.2 (Path.mem_name_of_mem_suffix hmem)

theorem targetOf_of_none (h : b.RenamesToIdentifiers) {source : String} (component : Option String)
    (hnone : b.naming.pathOverrides.get? source = none)
    (hname : (Path.ofString source).name ≠ "") :
    b.targetOf source component = .ok (b.newPlace source component, false) := by
  obtain ⟨hempty, hhere, hslash⟩ := newName_component h component hname
  simp only [targetOf, hnone]
  show ((Path.ofString source).withName (b.newName source component)).map (·, false) = _
  rw [Path.withName_of_component hname hempty hhere hslash]
  rfl

/-- **A place is given for the file, or it is a new name in the directory of the file.** -/
theorem targetOf_cases (h : b.RenamesToIdentifiers) {source : String} {component : Option String}
    {place : Path} {given : Bool} (htarget : b.targetOf source component = .ok (place, given)) :
    (∃ text, b.naming.pathOverrides.get? source = some text ∧ place = Path.ofString text) ∨
    (b.naming.pathOverrides.get? source = none ∧ (Path.ofString source).name ≠ "" ∧
      place = b.newPlace source component) := by
  cases hget : b.naming.pathOverrides.get? source with
  | some text =>
    simp only [targetOf, hget, Except.ok.injEq, Prod.mk.injEq] at htarget
    exact Or.inl ⟨text, rfl, htarget.1.symm⟩
  | none =>
    refine Or.inr ⟨rfl, ?_⟩
    have hname : (Path.ofString source).name ≠ "" := by
      intro hname
      simp [targetOf, hget, Path.withName, hname, Except.map] at htarget
    rw [targetOf_of_none h component hget hname, Except.ok.injEq, Prod.mk.injEq] at htarget
    exact ⟨hname, htarget.1.symm⟩

theorem sound_place (h : b.RenamesToIdentifiers) {source : String} {component : Option String}
    {place : Path} {given : Bool} (htarget : b.targetOf source component = .ok (place, given)) :
    place.Sound := by
  obtain ⟨text, -, rfl⟩ | ⟨-, hname, rfl⟩ := targetOf_cases h htarget
  · exact Path.sound_ofString text
  · have hsource := Path.sound_ofString source
    refine ⟨hsource.root, fun q hq => ?_⟩
    rcases List.mem_append.mp hq with hq | hq
    · exact hsource.parts q (List.dropLast_subset _ hq)
    · obtain ⟨hempty, -, hslash⟩ := newName_component h component hname
      exact List.mem_singleton.mp hq ▸ ⟨hempty, hslash⟩

theorem sound_targetOf (h : b.Sound) {source : String} {component : Option String} {place : Path}
    {given : Bool} (htarget : b.targetOf source component = .ok (place, given)) : place.Sound :=
  sound_place h.renames htarget

/-- A plan puts its file to the place of the file below the root. -/
theorem plan_cases {d : Descriptor} {p : Plan} (h : b.plan d = .ok p) :
    ∃ place given, b.targetOf d.sourcePath (some d.name) = .ok (place, given) ∧
      p.descriptor = d ∧ p.targetPath = b.root ++ place := by
  unfold plan at h
  cases htarget : b.targetOf d.sourcePath (some d.name) with
  | error e => simp [htarget, Except.mapError, bind, Except.bind] at h
  | ok found =>
    obtain ⟨place, given⟩ := found
    refine ⟨place, given, rfl, ?_⟩
    simp only [htarget, Except.mapError, bind, Except.bind] at h
    cases hroot : b.root? with
    | error e => simp [hroot] at h
    | ok root =>
      have hsame : root = b.root := by
        unfold root? at hroot
        split at hroot
        · exact (Except.ok.inj hroot).symm
        · cases hroot
      simp only [hroot] at h
      split at h
      · cases h
      · obtain rfl := (Except.ok.inj h).symm
        exact ⟨rfl, by rw [hsame]⟩

/-- A file that gets an identifier for its stem stays as far below the root as it is, and it is
named by that stem. -/
theorem inner_newPlace {source : String} {component : Option String}
    (hname : (Path.ofString source).name ≠ "") (hroot : (Path.ofString source).root = "")
    (hup : ∀ q ∈ (Path.ofString source).parts.dropLast, Named q)
    (hident : Text.isIdentifier (b.newStem source component) = true) :
    (b.newPlace source component).Inner := by
  have hnamed : Named (b.newName source component) := Text.named_of_isIdentifier hident _
  refine ⟨hroot, by simp [newPlace], fun q hq => ?_, ?_⟩
  · rcases List.mem_append.mp hq with hq | hq
    · exact hup q hq
    · exact List.mem_singleton.mp hq ▸ hnamed
  · obtain ⟨hempty, hdot, -⟩ := Text.chars_of_isIdentifier hident
    have hslash := (Path.mem_parts_ofString (Path.name_mem hname)).2.2
    obtain hnone | hending := Path.suffix_cases hslash
    · have hown : (b.newPlace source component).name = b.newStem source component := by
        rw [name_newPlace, newName, hnone, String.append_empty]
      rw [Path.stem_of_no_dot (hown ▸ hdot), name_newPlace]
      exact hnamed
    · rw [(Path.stem_suffix_of_name hending hempty (b.name_newPlace source component)).1,
        ← String.append_empty (s := b.newStem source component)]
      exact Text.named_of_isIdentifier hident ""

/-- The place of the file of a component is strictly below the root. -/
def Below (b : Batch) (d : Descriptor) : Prop :=
  ∃ place given, b.targetOf d.sourcePath (some d.name) = .ok (place, given) ∧ place.Inner

end Batch
end Transplant
