import Transplant.Proofs.Path.Below
import Transplant.Proofs.Plan.Ways

/-!
# Specifiers that have been spelled

A batch in which nothing gets a new name or another place still spells imports: a specifier that
takes a detour to a file of the batch is replaced by the way to that file.  What is written is not
spelled once more.

The reason is that the way leads to the text that was looked for in the batch, and not only to the
file.  So the files of the batch are tried in the same order, the same file is found in the same
form, and the way to it is the one that stands there (`sibling?_wayTo`).

* `Batch.Neutral`: nothing gets a new name or another place
* `Batch.Keeps`: a specifier that stays as it is
* `Batch.baseOf_way`: the way from a file to a place leads to it
* `Batch.keeps_of_resolve`: what a specifier is replaced by stays as it is
-/

namespace Transplant

namespace Lexical

/-! ## Leading up -/

/-- What goes up in the end still does when it is travelled on from. -/
theorem getLast?_travel {start : List String} (h : start.getLast? = some "..") (l : List String) :
    (travel false start l).getLast? = some ".." := by
  induction l generalizing start with
  | nil => exact h
  | cons p rest ih =>
    refine ih ?_
    rcases start with _ | ⟨last, before⟩
    · cases h
    by_cases hblank : p = "" ∨ p = "."
    · rcases hblank with rfl | rfl <;> simpa using h
    by_cases hup : p = ".."
    · subst hup
      rcases before with _ | ⟨q, before⟩
      · obtain rfl : last = ".." := by simpa using h
        decide
      · rw [List.getLast?_cons_cons] at h
        by_cases hlast : last = ".." <;> simp [step, hlast, h]
    · rw [not_or] at hblank
      rw [step_named ⟨hblank.1, hblank.2, hup⟩, List.getLast?_cons_cons]
      exact h

/-- A normalized text that leads up begins so. -/
theorem startsWith_up {s : String} (hroot : rootOf s = "") {rest : List String}
    (h : components s = ".." :: rest) : Text.startsWith (normalize s) ".." = true := by
  have htext : normalize s = Text.join "/" (".." :: rest) := by
    obtain ⟨-, hnil, -⟩ | ⟨-, htext⟩ := normalize_cases s
    · rw [h] at hnil
      cases hnil
    · rw [htext, hroot, h, String.empty_append]
  rw [htext, Text.startsWith_iff]
  rcases rest with _ | ⟨q, rest⟩
  · exact List.prefix_rfl
  · rw [Text.join_cons_cons, String.append_assoc, String.toList_append]
    exact List.prefix_append _ _

theorem normalize_ne_empty (s : String) : normalize s ≠ "" := by
  unfold normalize
  dsimp only
  split
  · decide
  · assumption

/-- Components that do not count may be left out. -/
theorem travel_filter (absolute : Bool) (start l : List String) :
    travel absolute start (l.filter fun p => p ≠ "" && p ≠ ".") = travel absolute start l := by
  induction l generalizing start with
  | nil => rfl
  | cons p rest ih =>
    by_cases hblank : p = "" ∨ p = "."
    · rcases hblank with rfl | rfl <;> simpa using ih start
    · rw [not_or] at hblank
      rw [List.filter_cons_of_pos (by simpa using hblank), travel_cons, travel_cons, ih]

end Lexical

namespace Path

open Lexical

theorem travel_ofString (s : String) (absolute : Bool) (start : List String) :
    travel absolute start (ofString s).parts = travel absolute start (Text.splitAll '/' s) :=
  travel_filter absolute start _

/-- Reading a path and spelling it does not change where it leads. -/
theorem normalize_ofString (s : String) : normalize (ofString s).toString = normalize s := by
  refine normalize_eq_iff.mpr ⟨rootOf_toString (sound_ofString s), ?_⟩
  rw [components_toString (sound_ofString s), travel_ofString, components_eq]
  rfl

end Path

namespace Batch

open Lexical

/-- A batch in which nothing gets a new name or another place. -/
structure Neutral (b : Batch) : Prop where
  importPrefixes : b.naming.importPrefixes = Table.empty
  renames : b.naming.renames = Table.empty
  pathOverrides : b.naming.pathOverrides = Table.empty
  targetAliases : b.naming.targetAliases = Table.empty

instance (b : Batch) : Decidable b.Neutral :=
  decidable_of_iff (b.naming.importPrefixes = Table.empty ∧ b.naming.renames = Table.empty ∧
      b.naming.pathOverrides = Table.empty ∧ b.naming.targetAliases = Table.empty)
    ⟨fun h => ⟨h.1, h.2.1, h.2.2.1, h.2.2.2⟩,
      fun h => ⟨h.importPrefixes, h.renames, h.pathOverrides, h.targetAliases⟩⟩

/-- The specifier stays as it is. -/
def Keeps (b : Batch) (p : Plan) (specifier : String) : Prop :=
  ∃ new, (b.resolve p specifier).2 = .ok new ∧ new.getD specifier = specifier

variable {b : Batch}

/-! ## Where files go -/

/-- Every file goes to its own place. -/
theorem targetOf_neutral (h : b.Neutral) {source : String} (component : Option String)
    (hparts : (Path.ofString source).parts ≠ []) :
    b.targetOf source component = .ok (Path.ofString source, false) := by
  have hrenames : b.RenamesToIdentifiers := fun old new hget => by
    rw [h.renames, Table.get?_empty] at hget
    cases hget
  have hstem : b.newStem source component = (Path.ofString source).stem := by
    simp [newStem, h.renames]
  have hplace : b.newPlace source component = Path.ofString source := by
    rw [newPlace, newName, hstem, Path.stem_append_suffix, Path.parts_eq hparts]
  rw [targetOf_of_none hrenames component (by rw [h.pathOverrides, Table.get?_empty])
    (Path.name_ne_empty (Path.sound_ofString source) hparts), hplace]

/-- What is not the name of a file has no place. -/
theorem parts_of_targetOf (h : b.Neutral) {source : String} {component : Option String}
    {found : Path × Bool} (htarget : b.targetOf source component = .ok found) :
    (Path.ofString source).parts ≠ [] := by
  intro hnil
  have hname : (Path.ofString source).name = "" := by
    rw [Path.name, hnil]
    rfl
  simp [targetOf, h.pathOverrides, Path.withName, hname, Except.map] at htarget

/-- What is spelled for a file that is named without its ending. -/
theorem spelledPath_extension {t e : String} (hrel : rootOf t = "") (he : e ∈ sourceEndings) :
    ∃ before last, Text.splitAll '/' (normalize t) = before ++ [last] ∧ last ≠ "" ∧
      '/' ∉ last.toList ∧ spelledPath (Path.ofString (normalize t ++ e)) .extension =
        ⟨"", (before.filter fun p => p ≠ "" && p ≠ ".") ++ [last]⟩ := by
  have hending := ending_of_mem he
  obtain ⟨before, last, hsplit, hwith⟩ :=
    Text.splitAll_append_of_notMem (s := normalize t) hending.slash
  have hroot : (Path.ofString (normalize t ++ e)).root = "" := by
    rw [Path.root_ofString, rootOf_append fun hhead => hending.slash (List.mem_of_head? hhead),
      rootOf_normalize, hrel]
  have hsuffix := suffix_of_extension hending hroot
  have hnamed : Named (last ++ e) := by
    refine named_of_length ?_
    rw [String.toList_append, List.length_append]
    simp only [sourceEndings, List.mem_cons, List.not_mem_nil, or_false] at he
    rcases he with rfl | rfl | rfl | rfl <;> exact Nat.lt_add_left _ (by decide)
  have hname := Path.name_ofString_of_split hwith hnamed.ne_empty hnamed.ne_here
  have hstem : (Path.ofString (normalize t ++ e)).stem = last := by
    have hboth := (Path.ofString (normalize t ++ e)).stem_append_suffix
    rw [hsuffix, hname] at hboth
    exact (String.append_left_inj e).mp hboth
  have hlast : last ≠ "" := hstem ▸ Path.stem_ne_empty (by rw [hsuffix]; exact hending.ne_empty)
  have hparts : (Path.ofString (normalize t ++ e)).parts =
      (before.filter fun p => p ≠ "" && p ≠ ".") ++ [last ++ e] := by
    simp [Path.ofString, hwith, List.filter_append, hnamed.ne_empty, hnamed.ne_here]
  refine ⟨before, last, hsplit, hlast, ?_, ?_⟩
  · refine Text.slash_notMem_of_mem_splitAll (s := normalize t) ?_
    rw [hsplit]
    exact List.mem_append_right _ List.mem_cons_self
  · rw [spelledPath, hroot, hstem, hparts, List.dropLast_concat]

/-- What is spelled for a file that is named by its directory. -/
theorem spelledPath_index {t e : String} (hrel : rootOf t = "") (he : e ∈ sourceEndings) :
    spelledPath (Path.ofString (normalize t ++ "/" ++ ("index" ++ e))) .index =
      Path.ofString (normalize t) := by
  have hending := ending_of_mem he
  have hnamed : Named ("index" ++ e) := hending.named (by decide)
  have hslash : '/' ∉ ("index" ++ e).toList := by
    rw [String.toList_append, List.mem_append, not_or]
    exact ⟨by decide, hending.slash⟩
  have hunrooted : Unrooted (normalize t) := unrooted_of_rootOf (by rw [rootOf_normalize, hrel])
  have hroot : rootOf (normalize t ++ "/" ++ ("index" ++ e)) = "" := by
    refine rootOf_of_unrooted fun hhead => hunrooted ?_
    have hne : (normalize t).toList ≠ [] := fun hnil =>
      normalize_ne_empty t (String.toList_eq_nil_iff.mp hnil)
    rw [String.toList_append, String.toList_append, List.append_assoc, List.head?_append,
      List.head?_eq_some_head hne, Option.some_or] at hhead
    rw [List.head?_eq_some_head hne, hhead]
  have hparts : (Path.ofString (normalize t ++ "/" ++ ("index" ++ e))).parts =
      (Path.ofString (normalize t)).parts ++ ["index" ++ e] := by
    simp [Path.ofString, Text.splitAll_append_slash, Text.splitAll_of_notMem hslash,
      hnamed.ne_empty, hnamed.ne_here]
  have hroots : (Path.ofString (normalize t ++ "/" ++ ("index" ++ e))).root =
      (Path.ofString (normalize t)).root := by
    rw [Path.root_ofString, Path.root_ofString, hroot, rootOf_normalize, hrel]
  rw [spelledPath, Path.parent, hparts, List.dropLast_concat, hroots]

/-- The place that is spelled for a candidate is the text that the candidate is one for. -/
theorem normalize_spelledPath {t : String} {s : Sibling} (hrel : rootOf t = "")
    (hs : s ∈ candidates (normalize t)) :
    normalize (spelledPath (Path.ofString s.path) s.form).toString = normalize t := by
  have hnormal : normalize (normalize t) = normalize t :=
    normalize_eq_iff.mpr ⟨rootOf_normalize t, components_normalize t⟩
  rcases mem_candidates.mp hs with rfl | ⟨e, he, rfl⟩ | ⟨e, he, rfl⟩
  · simp only [spelledPath]
    rw [Path.normalize_ofString, hnormal]
  · obtain ⟨before, last, hsplit, hempty, hslash, hspelled⟩ := spelledPath_extension hrel he
    have hsound : Path.Sound ⟨"", (before.filter fun p => p ≠ "" && p ≠ ".") ++ [last]⟩ := by
      refine ⟨Or.inl rfl, fun q hq => ?_⟩
      rcases List.mem_append.mp hq with hq | hq
      · obtain ⟨hmem, hkeep⟩ := List.mem_filter.mp hq
        simp only [Bool.and_eq_true, decide_eq_true_eq] at hkeep
        refine ⟨hkeep.1, Text.slash_notMem_of_mem_splitAll (s := normalize t) ?_⟩
        rw [hsplit]
        exact List.mem_append_left _ hmem
      · exact List.mem_singleton.mp hq ▸ ⟨hempty, hslash⟩
    rw [hspelled, ← hnormal, normalize_eq_iff]
    refine ⟨by rw [Path.rootOf_toString hsound, rootOf_normalize, hrel], ?_⟩
    rw [Path.components_toString hsound, components_eq (normalize t), rootOf_normalize, hrel,
      hsplit, travel_append, travel_append, travel_filter]
  · simp only [spelledPath_index hrel he]
    rw [Path.normalize_ofString, hnormal]

/-! ## The way to a file -/

/-- **From the directory of a file, the way to a place leads to it**, if that directory does not
lead up. -/
theorem baseOf_way {own : Path} {place : String} (hown : own.Sound) (hrel : own.root = "")
    (hparts : own.parts ≠ []) (hplace : rootOf place = "")
    (hnamed : ∀ q ∈ components (parent own.toString), Named q) :
    baseOf own.toString (dotted (relative place own.parent.toString)) = normalize place := by
  have hdirectory : rootOf (parent own.toString) = "" :=
    (Path.rootOf_parent_toString hown hparts).trans hrel
  have hsame : components own.parent.toString = components (parent own.toString) := by
    rw [Path.components_parent_toString hown hparts,
      Path.components_toString (Path.sound_parent hown)]
    rfl
  have hway : relative place own.parent.toString = relative place (parent own.toString) :=
    relative_congr (by rw [hsame])
  rw [baseOf, hway]
  refine normalize_join_way (hplace.trans hdirectory.symm) (fun n hn => ?_) rfl
  exact hnamed n (mem_of_mem_up hn)

/-- What is found in the batch is named by a relative specifier, and is not above the source
project. -/
theorem of_sibling? {source specifier : String} {s : Sibling}
    (h : b.sibling? source specifier = some s) :
    Unrooted specifier ∧ Text.startsWith (baseOf source specifier) ".." = false ∧
      (candidates (baseOf source specifier)).find? b.has = some s := by
  unfold sibling? at h
  split at h
  · rename_i hdot
    obtain ⟨tail, htail⟩ := Text.startsWith_iff.mp hdot
    refine ⟨?_, ?_⟩
    · rw [Unrooted, ← htail]
      simp
    · simp only [file?] at h
      split at h
      · cases h
      · rename_i hup
        exact ⟨Bool.eq_false_iff.mpr hup, h⟩
  · cases h

/-- From a directory that leads up nothing is found in the batch. -/
theorem named_of_sibling? {own : Path} {specifier : String} {s : Sibling} (hown : own.Sound)
    (hrel : own.root = "") (hparts : own.parts ≠ [])
    (hs : b.sibling? own.toString specifier = some s) :
    ∀ q ∈ components (parent own.toString), Named q := by
  obtain ⟨hunrooted, hinside, -⟩ := of_sibling? hs
  have hdirectory : rootOf (parent own.toString) = "" :=
    (Path.rootOf_parent_toString hown hparts).trans hrel
  have hcomponents : components (parent own.toString) =
      (travel false [] (Text.splitAll '/' (parent own.toString))).reverse := by
    rw [components_eq, hdirectory]
    rfl
  obtain ⟨up, names, hway, hnames⟩ := exists_ups (Text.splitAll '/' (parent own.toString))
  rw [← hcomponents] at hway
  cases up with
  | zero =>
    rw [hway]
    exact hnames
  | succ up =>
    -- the directory leads up, and so does what the specifier leads to
    exfalso
    have hlast : (components (parent own.toString)).reverse.getLast? = some ".." := by
      rw [List.getLast?_reverse, hway]
      rfl
    have hbase : components (join (parent own.toString) specifier) =
        (travel false (components (parent own.toString)).reverse
          (Text.splitAll '/' specifier)).reverse := by
      rw [components_join hunrooted, hdirectory]
      rfl
    have hhead := getLast?_travel hlast (Text.splitAll '/' specifier)
    rw [← List.head?_reverse, ← hbase, List.head?_eq_some_iff] at hhead
    obtain ⟨rest, hrest⟩ := hhead
    have hroot : rootOf (join (parent own.toString) specifier) = "" :=
      (rootOf_join hunrooted _).trans hdirectory
    rw [baseOf, startsWith_up hroot hrest] at hinside
    cases hinside

/-! ## Spelling once more -/

/-- The way to the place of a file, as it is written in another file. -/
def wayTo (own : Path) (s : Sibling) : String :=
  dotted (relative (spelledPath (Path.ofString s.path) s.form).toString own.parent.toString)

/-- A file of the batch is named by the way to it, unless the specifier means just that. -/
theorem siblingSpecifier_neutral (h : b.Neutral) {p : Plan} {own : Path} {s : Sibling} {r : String}
    (htarget : p.targetPath = b.root ++ own) (hrel : own.root = "") {specifier : String}
    (hr : b.siblingSpecifier p specifier s = .ok r) :
    r = (if normalize (wayTo own s) = normalize specifier then specifier else wayTo own s) ∧
      ∀ again, b.siblingSpecifier p again s =
        .ok (if normalize (wayTo own s) = normalize again then again else wayTo own s) := by
  have hparts : (Path.ofString s.path).parts ≠ [] := by
    cases hfound : b.targetOf s.path none with
    | error e =>
      simp only [siblingSpecifier, hfound, bind, Except.bind] at hr
      cases hr
    | ok found => exact parts_of_targetOf h hfound
  have hplace := targetOf_neutral h none hparts
  have hname := Path.name_ne_empty (Path.sound_ofString s.path) hparts
  have hall (again : String) : b.siblingSpecifier p again s =
      .ok (if normalize (wayTo own s) = normalize again then again else wayTo own s) := by
    simp only [siblingSpecifier, hplace, htarget, Path.relativeTo_append hrel, spelled_eq hname,
      bind, Except.bind]
    rfl
  exact ⟨Except.ok.inj (hr.symm.trans (hall specifier)), hall⟩

/-- The way to a file that has been found leads to where it was looked for. -/
theorem sibling?_wayTo {own : Path} {specifier : String} {s : Sibling} (hown : own.Sound)
    (hrel : own.root = "") (hparts : own.parts ≠ [])
    (hs : b.sibling? own.toString specifier = some s) :
    b.sibling? own.toString (wayTo own s) = some s := by
  obtain ⟨hunrooted, hinside, hfound⟩ := of_sibling? hs
  have hnamed := named_of_sibling? hown hrel hparts hs
  have hroot : rootOf (join (parent own.toString) specifier) = "" := by
    rw [rootOf_join hunrooted, Path.rootOf_parent_toString hown hparts, hrel]
  have hspelled := normalize_spelledPath hroot (List.mem_of_find?_eq_some hfound)
  have hplace : rootOf (spelledPath (Path.ofString s.path) s.form).toString = "" :=
    (normalize_eq_iff.mp hspelled).1.trans hroot
  have hbase : baseOf own.toString (wayTo own s) = baseOf own.toString specifier :=
    (baseOf_way hown hrel hparts hplace hnamed).trans hspelled
  have hdot : Text.startsWith (wayTo own s) "." = true := by
    unfold wayTo dotted
    split
    · assumption
    · rw [Text.startsWith_iff, String.toList_append]
      exact ⟨'/' :: _, rfl⟩
  rw [sibling?, if_pos hdot, file?, hbase]
  simp only [hinside, Bool.false_eq_true, if_false]
  exact hfound

/-- Without redirects and aliases there is nothing else to spell a specifier by. -/
theorem outside_neutral (h : b.Neutral) (source specifier : String) :
    b.outside source specifier = .package ∨ b.outside source specifier = .unresolved := by
  have hredirect : b.redirects.resolve? specifier = none := by
    simp [redirects, h.importPrefixes, Table.empty, Redirects.ofTable, Redirects.ofRules,
      Redirects.resolve?, Redirects.match?]
  have halias : b.aliased? source specifier = none := by
    simp [aliased?, h.targetAliases, Table.empty, Alias.spell?, Alias.best?, Alias.sorted]
  simp only [outside, hredirect, halias]
  split
  · exact Or.inr rfl
  · exact Or.inl rfl

/-- What becomes of a specifier depends on where the file comes from and where it goes. -/
theorem resolve_congr {p q : Plan} (hsource : p.descriptor.sourcePath = q.descriptor.sourcePath)
    (htarget : p.targetPath = q.targetPath) {specifier : String} {new : Option String}
    (h : (b.resolve p specifier).2 = .ok new) : (b.resolve q specifier).2 = .ok new := by
  cases hs : b.sibling? p.descriptor.sourcePath specifier with
  | some s =>
    have hspell : b.siblingSpecifier q specifier s = b.siblingSpecifier p specifier s := by
      rw [siblingSpecifier, siblingSpecifier, htarget]
    rw [resolve_sibling hs] at h
    rw [resolve_sibling (hsource ▸ hs), hspell, h]
  | none =>
    simp only [resolve, hs] at h
    simp only [resolve, ← hsource, hs]
    cases hout : b.outside p.descriptor.sourcePath specifier with
    | redirected s => simpa only [hout] using h
    | aliased s => simpa only [hout] using h
    | package => simpa only [hout] using h
    | unresolved =>
      simp only [hout] at h
      cases hmode : b.naming.mismatch with
      | strict => rw [hmode] at h; cases h
      | approximate => rw [hmode] at h; exact h

/-- **What a specifier is replaced by stays as it is.** -/
theorem keeps_of_resolve (h : b.Neutral) {p : Plan} {own : Path} (hown : own.Sound)
    (hrel : own.root = "") (hparts : own.parts ≠ [])
    (hsource : p.descriptor.sourcePath = own.toString)
    (htarget : p.targetPath = b.root ++ own) {specifier : String} {new : Option String}
    (hnew : (b.resolve p specifier).2 = .ok new) : b.Keeps p (new.getD specifier) := by
  cases hs : b.sibling? p.descriptor.sourcePath specifier with
  | some s =>
    have hagain := hnew
    rw [resolve_sibling hs] at hnew
    cases hr : b.siblingSpecifier p specifier s with
    | error e =>
      rw [hr] at hnew
      cases hnew
    | ok r =>
      rw [hr] at hnew
      obtain rfl := Except.ok.inj hnew
      obtain ⟨hwritten, hall⟩ := siblingSpecifier_neutral h htarget hrel hr
      rw [Option.getD_some]
      by_cases hmeans : normalize (wayTo own s) = normalize specifier
      · rw [if_pos hmeans] at hwritten
        exact ⟨some r, hwritten ▸ hagain, rfl⟩
      · rw [if_neg hmeans] at hwritten
        rw [hsource] at hs
        have hfound := sibling?_wayTo hown hrel hparts hs
        rw [← hsource, ← hwritten] at hfound
        refine ⟨some r, ?_, rfl⟩
        rw [resolve_sibling hfound, hall, hwritten, ite_self]
        rfl
  | none =>
    have hnone : new = none := by
      rcases outside_neutral h p.descriptor.sourcePath specifier with hout | hout
      · simp only [resolve, hs, hout] at hnew
        exact (Except.ok.inj hnew).symm
      · simp only [resolve, hs, hout] at hnew
        split at hnew
        · cases hnew
        · exact (Except.ok.inj hnew).symm
    obtain rfl := hnone
    exact ⟨none, hnew, rfl⟩

end Batch
end Transplant
