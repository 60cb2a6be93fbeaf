import Transplant.Proofs.Plan.Target

/-!
# Imports that follow the files of a batch

A specifier that names a file of the batch is replaced by the way from the new place of the
importing file to the new place of the file it names.

## What the importer does not know

The way itself is right: travelled from the directory of the importing file, it leads below the root
to where `targetOf` puts the other file (`components_baseOf`).  But the importer asks `targetOf`
without a component, and so it takes for granted that the file is renamed whenever its stem has a
new name.  The plan of the file renames it only if the component in it is called like the stem.  And
an importer that leaves out the ending, or names a directory by its index, relies on the new place
to have such an ending or to be an index.

`resolve_denotes_iff` turns this into the exact condition, `Followed`.

* `Batch.Denotes`: what a specifier leads to
* `Batch.denotes_iff`: which names in the directory of the file a specifier leads to
* `Batch.resolve_denotes_iff`: when the imports of a file follow it
-/

namespace Transplant

open Lexical

namespace Batch

/-- A specifier in a file, taken in one form, leads to a path. -/
def Denotes (own : Path) (specifier : String) (form : Form) (target : Path) : Prop :=
  ∃ c ∈ candidates (baseOf own.toString specifier),
    c.form = form ∧ normalize c.path = normalize target.toString

instance (own : Path) (specifier : String) (form : Form) (target : Path) :
    Decidable (Denotes own specifier form target) :=
  inferInstanceAs (Decidable (∃ c ∈ candidates (baseOf own.toString specifier),
    c.form = form ∧ normalize c.path = normalize target.toString))

theorem mem_candidates {base : String} {c : Sibling} :
    c ∈ candidates base ↔ c = ⟨base, .exact⟩ ∨
      (∃ e ∈ sourceEndings, c = ⟨base ++ e, .extension⟩) ∨
      ∃ e ∈ sourceEndings, c = ⟨base ++ "/" ++ ("index" ++ e), .index⟩ := by
  have hindex : ∀ e : String, base ++ "/index" ++ e = base ++ "/" ++ ("index" ++ e) := by
    intro e
    rw [show ("/index" : String) = "/" ++ "index" from rfl]
    simp only [String.append_assoc]
  simp only [candidates, List.mem_cons, List.mem_append, List.mem_map, hindex, eq_comm]

theorem denotes_exact_iff {own target : Path} {specifier : String} :
    Denotes own specifier .exact target ↔
      normalize (baseOf own.toString specifier) = normalize target.toString := by
  simp [Denotes, mem_candidates, or_and_right, exists_or]

theorem denotes_extension_iff {own target : Path} {specifier : String} :
    Denotes own specifier .extension target ↔ ∃ e ∈ sourceEndings,
      normalize (baseOf own.toString specifier ++ e) = normalize target.toString := by
  simp [Denotes, mem_candidates, or_and_right, exists_or]

theorem denotes_index_iff {own target : Path} {specifier : String} :
    Denotes own specifier .index target ↔ ∃ e ∈ sourceEndings,
      normalize (baseOf own.toString specifier ++ "/" ++ ("index" ++ e)) =
        normalize target.toString := by
  simp [Denotes, mem_candidates, or_and_right, exists_or]

theorem ending_of_mem {e : String} (h : e ∈ sourceEndings) : Path.Ending e := by
  simp only [sourceEndings, List.mem_cons, List.not_mem_nil, or_false] at h
  rcases h with rfl | rfl | rfl | rfl <;> exact ⟨⟨_, rfl, by decide, by decide⟩, by decide⟩

/-! ## The way to a place below the root -/

variable {b : Batch}

theorem dotted_cases (t : String) : dotted t = t ∨ dotted t = "." ++ "/" ++ t := by
  unfold dotted
  split
  · exact Or.inl rfl
  · exact Or.inr rfl

theorem rootOf_dotted (target start : String) : rootOf (dotted (relative target start)) = "" := by
  rcases dotted_cases (relative target start) with h | h <;> rw [h]
  · exact rootOf_of_unrooted (unrooted_relative target start)
  · rw [rootOf_append (unrooted_relative target start)]
    decide

theorem travel_dotted (target start : String) (absolute : Bool) (below : List String) :
    travel absolute below (Text.splitAll '/' (dotted (relative target start))) =
      travel absolute below (way (components target) (components start)) := by
  rcases dotted_cases (relative target start) with h | h <;> rw [h]
  · exact travel_relative target start absolute below
  · rw [Text.splitAll_append_slash, travel_append, travel_relative,
      Text.splitAll_of_notMem (by decide), travel_cons, step_here, travel_nil]

/-- From the directory of a file below the root, the way to another place leads there. -/
theorem components_baseOf {root own place : Path} {r : String} (hroot : root.Sound)
    (hown : own.Sound) (hrel : own.root = "") (hne : own.parts ≠ [])
    (hnamed : ∀ q ∈ own.parts, Named q) (hplace : place.Sound) (hbelow : place.root = "")
    (h : normalize r = normalize (dotted (relative place.toString own.parent.toString))) :
    rootOf (baseOf (root ++ own).toString r) = root.root ∧
      components (baseOf (root ++ own).toString r) =
        (travel (root.root ≠ "") [] (root.parts ++ place.parts)).reverse := by
  have hfile : root ++ own = ⟨root.root, root.parts ++ own.parts⟩ := Path.append_of_relative hrel
  have hsound : (root ++ own).Sound := Path.sound_append hroot hown
  have hparts : (root ++ own).parts ≠ [] := by
    rw [hfile]
    exact List.append_ne_nil_of_right_ne_nil _ hne
  have hr : rootOf r = "" := (normalize_eq_iff.mp h).1.trans (rootOf_dotted _ _)
  have hunrooted : Unrooted r := unrooted_of_rootOf hr
  have hdirectory : rootOf (parent (root ++ own).toString) = root.root := by
    rw [Path.rootOf_parent_toString hsound hparts, hfile]
  have hup : ∀ q ∈ own.parts.dropLast, Named q := fun q hq => hnamed q (List.dropLast_subset _ hq)
  refine ⟨by rw [baseOf, rootOf_normalize, rootOf_join hunrooted, hdirectory], ?_⟩
  rw [baseOf, components_normalize, components_join hunrooted, hdirectory,
    Path.components_parent_toString hsound hparts, List.reverse_reverse,
    travel_eq_of_normalize_eq h (rootOf_dotted _ _), travel_dotted, hfile,
    List.dropLast_append_of_ne_nil hne, travel_append, travel_named hup,
    show components own.parent.toString = own.parts.dropLast from
      Path.components_toString_of_named (Path.sound_parent hown) hup,
    travel_way hup, Path.components_toString hplace, hbelow, travel_append]
  exact congrArg List.reverse (travel_normal _ _ place.parts)

/-! ## What can stand behind a path -/

/-- An ending behind a normalized text belongs to its last component. -/
theorem components_append_ending {s e last : String} {init : List String} (he : Path.Ending e)
    (h : components s = init ++ [last]) (hlast : Named last) :
    rootOf (normalize s ++ e) = rootOf s ∧ components (normalize s ++ e) = init ++ [last ++ e] := by
  have hsound := Path.sound_components s
  rw [h] at hsound
  have hwith : Path.Sound ⟨rootOf s, init ++ [last ++ e]⟩ := by
    refine ⟨hsound.root, fun q hq => ?_⟩
    rcases List.mem_append.mp hq with hq | hq
    · exact hsound.parts q (List.mem_append_left _ hq)
    · obtain rfl := List.mem_singleton.mp hq
      refine ⟨fun h0 => hlast.ne_empty (String.append_eq_empty_iff.mp h0).1, fun hmem => ?_⟩
      rcases List.mem_append.mp (String.toList_append ▸ hmem) with hmem | hmem
      · exact (hsound.parts last (by simp)).2 hmem
      · exact he.slash hmem
  have htext : normalize s ++ e = (⟨rootOf s, init ++ [last ++ e]⟩ : Path).toString := by
    rw [Path.normalize_eq_toString, h, Path.toString_concat_append]
  -- the last component is one step, so the others are normalized without it
  have hinit : travel (rootOf s ≠ "") [] init = init.reverse := by
    have hself := travel_travel (rootOf s ≠ "") (Text.splitAll '/' s)
    rw [← components_eq, h, travel_append, travel_cons, travel_nil, step_named hlast] at hself
    have hparts : travel (rootOf s ≠ "") [] (Text.splitAll '/' s) = last :: init.reverse := by
      rw [← List.reverse_reverse (travel _ _ _), ← components_eq, h, List.reverse_append]
      rfl
    rw [hparts] at hself
    exact (List.cons.inj hself).2
  rw [htext, Path.rootOf_toString hwith, Path.components_toString hwith]
  refine ⟨rfl, ?_⟩
  show (travel (rootOf s ≠ "") [] (init ++ [last ++ e])).reverse = _
  rw [travel_append, hinit, travel_cons, travel_nil, step_named (he.named hlast.ne_empty),
    List.reverse_cons, List.reverse_reverse]

/-- A component behind a normalized text comes after its components. -/
theorem components_append_component {s n : String} (hn : Named n) (hslash : '/' ∉ n.toList)
    (h : components s ≠ []) :
    rootOf (normalize s ++ "/" ++ n) = rootOf s ∧
      components (normalize s ++ "/" ++ n) = components s ++ [n] := by
  have hsound := Path.sound_components s
  have hwith : Path.Sound ⟨rootOf s, components s ++ [n]⟩ := by
    refine ⟨hsound.root, fun q hq => ?_⟩
    rcases List.mem_append.mp hq with hq | hq
    · exact hsound.parts q hq
    · exact List.mem_singleton.mp hq ▸ ⟨hn.ne_empty, hslash⟩
  have htext : normalize s ++ "/" ++ n = (⟨rootOf s, components s ++ [n]⟩ : Path).toString := by
    rw [Path.normalize_eq_toString, Path.toString_append_component _ h]
  rw [htext, Path.rootOf_toString hwith, Path.components_toString hwith]
  refine ⟨rfl, ?_⟩
  show (travel (rootOf s ≠ "") [] (components s ++ [n])).reverse = _
  rw [travel_append, travel_cons, travel_nil, step_named hn, List.reverse_cons, components_eq,
    travel_travel]

/-! ## What a specifier leads to -/

/-- The place that is spelled for a form. -/
def spelledPath (target : Path) : Form → Path
  | .exact => target
  | .extension => ⟨target.root, target.parts.dropLast ++ [target.stem]⟩
  | .index => target.parent

theorem spelled_eq {target : Path} (h : target.name ≠ "") (form : Form) :
    spelled target form = .ok (spelledPath target form).toString := by
  cases form with
  | exact => rfl
  | extension => simp [spelled, spelledPath, Path.withoutSuffix, h, Except.map]
  | index => rfl

theorem sound_spelledPath {target : Path} (h : target.Sound) (hinner : target.Inner) (form : Form) :
    (spelledPath target form).Sound ∧ (spelledPath target form).root = "" ∧
      ∀ q ∈ (spelledPath target form).parts, Named q := by
  have hup : ∀ q ∈ target.parts.dropLast, q ∈ target.parts := List.dropLast_subset _
  cases form with
  | exact => exact ⟨h, hinner.root, hinner.parts⟩
  | index => exact ⟨Path.sound_parent h, hinner.root, fun q hq => hinner.parts q (hup q hq)⟩
  | extension =>
    refine ⟨⟨h.root, fun q hq => ?_⟩, hinner.root, fun q hq => ?_⟩
    · rcases List.mem_append.mp hq with hq | hq
      · exact h.parts q (hup q hq)
      · refine List.mem_singleton.mp hq ▸ ⟨hinner.stem.ne_empty, fun hmem => ?_⟩
        have hname : target.name ∈ target.parts := by
          rw [← Path.parts_eq hinner.nonempty]
          simp
        exact (h.parts _ hname).2 (Path.mem_name_of_mem_stem hmem)
    · rcases List.mem_append.mp hq with hq | hq
      · exact hinner.parts q (hup q hq)
      · exact List.mem_singleton.mp hq ▸ hinner.stem

/-- The names that a specifier for a place leads to in a form. -/
def Spells (form : Form) (place : Path) (name : String) : Prop :=
  match form with
  | .exact => place.name = name
  | .extension => ∃ e ∈ sourceEndings, place.stem ++ e = name
  | .index => ∃ e ∈ sourceEndings, "index" ++ e = name

/-- The components of a place below the root come after those of the root. -/
theorem travel_below {l : List String} (h : b.Sound) (hnamed : ∀ q ∈ l, Named q) :
    (travel (b.root.root ≠ "") [] (b.root.parts ++ l)).reverse =
      components b.root.toString ++ l := by
  rw [travel_append, travel_named hnamed, List.reverse_append, List.reverse_reverse,
    Path.components_toString (sound_root h)]

theorem components_root_ne_nil (h : b.Sound) : components b.root.toString ≠ [] := by
  obtain ⟨above, habove⟩ := parts_root h
  rw [Path.components_toString (sound_root h), habove, travel_append, travel_cons,
    step_named b.named_directory]
  simp

/-- **A specifier for a place leads, in the directory of that place, to the names that are
spelled.** -/
theorem denotes_iff {own found place : Path} {r : String} {form : Form} (h : b.Sound)
    (hown : own.Sound) (hownin : own.Inner) (hfound : found.Sound) (hfoundin : found.Inner)
    (hplace : place.Sound) (hplacein : place.Inner)
    (hdirectory : found.parts.dropLast = place.parts.dropLast)
    (hr : normalize r = normalize
      (dotted (relative (spelledPath found form).toString own.parent.toString))) :
    Denotes (b.root ++ own) r form (b.root ++ place) ↔ Spells form found place.name := by
  have hup : ∀ q ∈ found.parts.dropLast, Named q := fun q hq =>
    hfoundin.parts q (List.dropLast_subset _ hq)
  have hparts : place.parts = found.parts.dropLast ++ [place.name] := by
    rw [hdirectory, Path.parts_eq hplacein.nonempty]
  have htarget : rootOf (b.root ++ place).toString = b.root.root ∧
      components (b.root ++ place).toString =
        components b.root.toString ++ found.parts.dropLast ++ [place.name] := by
    have hsound := Path.sound_append (sound_root h) hplace
    rw [Path.rootOf_toString hsound, Path.components_toString hsound,
      Path.append_of_relative hplacein.root]
    refine ⟨rfl, ?_⟩
    rw [travel_below h hplacein.parts, hparts, List.append_assoc]
  -- the name at the end is all that is left to compare
  have hsame : ∀ {t n : String}, rootOf t = b.root.root ∧
      components t = components b.root.toString ++ found.parts.dropLast ++ [n] →
      (normalize t = normalize (b.root ++ place).toString ↔ n = place.name) := by
    intro t n ht
    rw [normalize_eq_iff, ht.1, ht.2, htarget.1, htarget.2]
    simp
  obtain ⟨hspelled, hrel, hnamed⟩ := sound_spelledPath hfound hfoundin form
  obtain ⟨hbaseroot, hbase⟩ := components_baseOf (sound_root h) hown hownin.root hownin.nonempty
    hownin.parts hspelled hrel hr
  rw [travel_below h hnamed] at hbase
  cases form with
  | exact =>
    rw [denotes_exact_iff]
    refine hsame ⟨hbaseroot, ?_⟩
    rw [hbase, List.append_assoc, Path.parts_eq hfoundin.nonempty]
    rfl
  | extension =>
    rw [denotes_extension_iff]
    refine exists_congr fun e => and_congr_right fun he => hsame ?_
    rw [baseOf, components_normalize] at hbase
    rw [baseOf, rootOf_normalize] at hbaseroot
    have hlast := components_append_ending (ending_of_mem he)
      (hbase.trans (List.append_assoc _ _ _).symm) hfoundin.stem
    exact ⟨hlast.1.trans hbaseroot, hlast.2⟩
  | index =>
    rw [denotes_index_iff]
    refine exists_congr fun e => and_congr_right fun he => hsame ?_
    rw [baseOf, components_normalize] at hbase
    rw [baseOf, rootOf_normalize] at hbaseroot
    have hslash : '/' ∉ ("index" ++ e).toList := by
      rw [String.toList_append, List.mem_append, not_or]
      exact ⟨by decide, (ending_of_mem he).slash⟩
    have hne : components (join (parent (b.root ++ own).toString) r) ≠ [] := by
      rw [hbase]
      exact List.append_ne_nil_of_left_ne_nil (components_root_ne_nil h) _
    have hlast := components_append_component ((ending_of_mem he).named (by decide)) hslash hne
    rw [hbase] at hlast
    exact ⟨hlast.1.trans hbaseroot, hlast.2⟩

/-! ## What the importer writes -/

/-- The importer writes a specifier that is normalized like the way to the spelled place. -/
theorem siblingSpecifier_eq {p : Plan} {own found : Path} {s : Sibling} {given : Bool}
    (specifier : String) (htarget : b.targetOf s.path none = .ok (found, given))
    (hname : found.name ≠ "")
    (hown : p.targetPath = b.root ++ own) (hrel : own.root = "") :
    ∃ r, b.siblingSpecifier p specifier s = .ok r ∧ normalize r = normalize
      (dotted (relative (spelledPath found s.form).toString own.parent.toString)) := by
  let r := dotted (relative (spelledPath found s.form).toString own.parent.toString)
  refine ⟨if normalize r = normalize specifier then specifier else r, ?_, ?_⟩
  · unfold siblingSpecifier
    rw [htarget, hown, Path.relativeTo_append hrel]
    simp only [bind, Except.bind, spelled_eq hname]
    rfl
  · split
    · rename_i h
      exact h.symm
    · rfl

/-- A specifier for a file of the batch becomes what the importer writes for it. -/
theorem resolve_sibling {p : Plan} {specifier : String} {s : Sibling}
    (h : b.sibling? p.descriptor.sourcePath specifier = some s) :
    (b.resolve p specifier).2 =
      ((b.siblingSpecifier p specifier s).map some).mapError .badPath := by
  unfold resolve
  simp only [h]
  split <;> rfl

/-- A specifier leads to one of the candidates for a normalized text. -/
theorem sibling?_cases {source specifier : String} {s : Sibling}
    (h : b.sibling? source specifier = some s) : ∃ t, s ∈ candidates (normalize t) := by
  simp only [sibling?, file?] at h
  split at h
  · split at h
    · cases h
    · exact ⟨_, List.mem_of_find?_eq_some h⟩
  · cases h

/-! ## Names of files that specifiers lead to -/

theorem suffix_of_extension {t e : String} (he : Path.Ending e)
    (hroot : (Path.ofString (normalize t ++ e)).root = "") :
    (Path.ofString (normalize t ++ e)).suffix = e := by
  obtain ⟨before, last, hsplit, hwith⟩ := Text.splitAll_append_of_notMem (s := normalize t) he.slash
  have hrel : rootOf t = "" := by
    have hunrooted : Unrooted e := fun hhead => he.slash (List.mem_of_head? hhead)
    rw [Path.root_ofString, rootOf_append hunrooted, rootOf_normalize] at hroot
    exact hroot
  -- a relative normalized text does not end with a slash
  have hlast : last ≠ "" := by
    obtain ⟨-, -, htext⟩ | ⟨hne, htext⟩ := normalize_cases t
    · rw [htext, Text.splitAll_of_notMem (by decide)] at hsplit
      have hmem : last ∈ ["."] := hsplit ▸ List.mem_append_right _ List.mem_cons_self
      rw [List.mem_singleton.mp hmem]
      decide
    · have hparts : components t ≠ [] := fun h0 => hne ⟨hrel, h0⟩
      rw [htext, hrel, String.empty_append,
        Text.splitAll_join hparts fun p hp => (mem_components hp).2.2] at hsplit
      have hmem : last ∈ components t := by
        rw [hsplit]
        exact List.mem_append_right _ List.mem_cons_self
      exact (mem_components hmem).1
  have hnamed : Named (last ++ e) := he.named hlast
  have hname := Path.name_ofString_of_split hwith hnamed.ne_empty hnamed.ne_here
  exact (Path.stem_suffix_of_name he hlast hname).2

theorem stem_suffix_of_index (t : String) {e : String} (he : Path.Ending e) :
    (Path.ofString (t ++ "/" ++ ("index" ++ e))).stem = "index" ∧
      (Path.ofString (t ++ "/" ++ ("index" ++ e))).suffix = e := by
  have hnamed : Named ("index" ++ e) := he.named (by decide)
  have hslash : '/' ∉ ("index" ++ e).toList := by
    rw [String.toList_append, List.mem_append, not_or]
    exact ⟨by decide, he.slash⟩
  have hsplit : Text.splitAll '/' (t ++ "/" ++ ("index" ++ e)) =
      Text.splitAll '/' t ++ ["index" ++ e] := by
    rw [Text.splitAll_append_slash, Text.splitAll_of_notMem hslash]
  have hname := Path.name_ofString_of_split hsplit hnamed.ne_empty hnamed.ne_here
  exact Path.stem_suffix_of_name he (by decide) hname

/-! ## When imports follow -/

/-- The place of a file suits the form in which it is imported.  A place that is given has an ending
that can be left out, or is an index.  Otherwise, if the stem has a new name, then the component is
called like the stem; only for an index it must not be. -/
def Followed (b : Batch) (d : Descriptor) (form : Form) : Prop :=
  match b.naming.pathOverrides.get? d.sourcePath with
  | some given =>
    match form with
    | .exact => True
    | .extension => (Path.ofString given).suffix ∈ sourceEndings
    | .index => (Path.ofString given).name ∈ sourceEndings.map ("index" ++ ·)
  | none =>
    let stem := (Path.ofString d.sourcePath).stem
    let renamed := (b.naming.renames.get? stem).getD stem
    match form with
    | .exact | .extension => renamed = stem ∨ d.name = stem
    | .index => renamed = stem ∨ d.name ≠ stem

theorem spells_given_iff {form : Form} {place : Path} :
    Spells form place place.name ↔
      match form with
      | .exact => True
      | .extension => place.suffix ∈ sourceEndings
      | .index => place.name ∈ sourceEndings.map ("index" ++ ·) := by
  cases form with
  | exact => simp [Spells]
  | extension =>
    constructor
    · rintro ⟨e, he, hname⟩
      rw [← place.stem_append_suffix] at hname
      exact (String.append_right_inj place.stem).mp hname ▸ he
    · exact fun h => ⟨_, h, place.stem_append_suffix⟩
  | index => exact List.mem_map.symm

theorem newStem_ne_empty (h : b.Sound) {source : String} {component : Option String}
    (hinner : (b.newPlace source component).Inner) : b.newStem source component ≠ "" := by
  rcases newStem_cases h.renames source component with hstem | hident
  · have hname : (b.newPlace source component).name = (Path.ofString source).name := by
      rw [name_newPlace, newName, hstem, Path.stem_append_suffix]
    have hsame : (b.newPlace source component).stem = (Path.ofString source).stem := by
      rw [Path.stem, Path.stem, hname]
    rw [hstem, ← hsame]
    exact hinner.stem.ne_empty
  · exact (Text.chars_of_isIdentifier hident).1

/-- In its own directory a file is spelled right if the importer and the plan agree on its stem; an
index has to stay one. -/
theorem spells_new_iff {source component t : String} {form : Form}
    (hroot : (Path.ofString source).root = "") (hne : b.newStem source none ≠ "")
    (hsource : (⟨source, form⟩ : Sibling) ∈ candidates (normalize t)) :
    Spells form (b.newPlace source none) (b.newName source (some component)) ↔
      match form with
      | .exact | .extension => b.newStem source none = b.newStem source (some component)
      | .index => b.newStem source (some component) = (Path.ofString source).stem := by
  cases form with
  | exact =>
    show (b.newPlace source none).name = _ ↔ _
    rw [name_newPlace, newName, newName]
    exact String.append_left_inj _
  | extension =>
    obtain ⟨e, he, rfl⟩ : ∃ e ∈ sourceEndings, source = normalize t ++ e := by
      simpa [mem_candidates] using hsource
    have hsuffix := suffix_of_extension (ending_of_mem he) hroot
    have hstem := (Path.stem_suffix_of_name (ending_of_mem he) hne (p := b.newPlace _ none)
      (by rw [name_newPlace, newName, hsuffix])).1
    constructor
    · rintro ⟨e', he', hname⟩
      rw [newName, hsuffix, hstem] at hname
      exact ((Path.append_ending_inj (ending_of_mem he') (ending_of_mem he)).mp hname).1
    · intro hsame
      exact ⟨e, he, by rw [hstem, newName, hsuffix, hsame]⟩
  | index =>
    obtain ⟨e, he, rfl⟩ : ∃ e ∈ sourceEndings, source = normalize t ++ "/" ++ ("index" ++ e) := by
      simpa [mem_candidates] using hsource
    obtain ⟨hstem, hsuffix⟩ := stem_suffix_of_index (normalize t) (ending_of_mem he)
    rw [hstem]
    constructor
    · rintro ⟨e', he', hname⟩
      rw [newName, hsuffix] at hname
      exact ((Path.append_ending_inj (ending_of_mem he') (ending_of_mem he)).mp hname).1.symm
    · intro hsame
      exact ⟨e, he, by rw [newName, hsuffix, hsame]⟩

/-- An importer puts a file to the place that is given for it, or to its own directory. -/
theorem targetOf_importer (h : b.Sound) {source component : String} {place : Path} {given : Bool}
    (htarget : b.targetOf source (some component) = .ok (place, given)) (hinner : place.Inner) :
    (∃ text, b.naming.pathOverrides.get? source = some text ∧ place = Path.ofString text ∧
      b.targetOf source none = .ok (place, true)) ∨
    (b.naming.pathOverrides.get? source = none ∧ place = b.newPlace source (some component) ∧
      b.targetOf source none = .ok (b.newPlace source none, false) ∧
      (b.newPlace source none).Inner) := by
  obtain ⟨text, hget, hplace⟩ | ⟨hget, hname, rfl⟩ := targetOf_cases h.renames htarget
  · exact Or.inl ⟨text, hget, hplace, by simp [targetOf, hget, hplace]⟩
  · refine Or.inr ⟨hget, rfl, targetOf_of_none h.renames none hget hname, ?_⟩
    rcases newStem_cases h.renames source none with hstem | hident
    · -- the stem keeps its name, so the plan keeps it as well
      have hsame : b.newPlace source none = b.newPlace source (some component) := by
        rw [newPlace, newPlace, newName, newName, newStem_some, hstem, ite_self]
      rw [hsame]
      exact hinner
    · refine inner_newPlace hname hinner.root (fun q hq => hinner.parts q ?_) hident
      exact List.mem_append_left _ hq

/-- **The imports of a file follow it exactly if its place suits the form of the import.** -/
theorem resolve_denotes_iff (h : b.Sound) {d e : Descriptor} {p q : Plan} {s : String} {form : Form}
    (hp : b.plan d = .ok p) (hq : b.plan e = .ok q) (hd : b.Below d) (he : b.Below e)
    (hs : b.sibling? d.sourcePath s = some ⟨e.sourcePath, form⟩) :
    (∃ r, (b.resolve p s).2 = .ok (some r) ∧ Denotes p.targetPath r form q.targetPath) ↔
      b.Followed e form := by
  obtain ⟨own, ownGiven, hown, hdesc, hownpath⟩ := plan_cases hp
  obtain ⟨place, placeGiven, hplace, -, hplacepath⟩ := plan_cases hq
  have hownin : own.Inner := by
    obtain ⟨own', _, hown', hin⟩ := hd
    rw [hown, Except.ok.injEq, Prod.mk.injEq] at hown'
    exact hown'.1 ▸ hin
  have hplacein : place.Inner := by
    obtain ⟨place', _, hplace', hin⟩ := he
    rw [hplace, Except.ok.injEq, Prod.mk.injEq] at hplace'
    exact hplace'.1 ▸ hin
  -- what is written for the place that the importer takes for granted
  have hwritten : ∀ {found : Path} {given : Bool},
      b.targetOf e.sourcePath none = .ok (found, given) → found.Inner →
      found.parts.dropLast = place.parts.dropLast →
      ((∃ r, (b.resolve p s).2 = .ok (some r) ∧ Denotes p.targetPath r form q.targetPath) ↔
        Spells form found place.name) := by
    intro found given hfound hfoundin hdirectory
    obtain ⟨r, hr, hnormal⟩ := siblingSpecifier_eq (s := ⟨e.sourcePath, form⟩) s hfound
       (Path.name_ne_empty (sound_targetOf h hfound) hfoundin.nonempty) hownpath hownin.root
    have hdenotes := denotes_iff h (sound_targetOf h hown) hownin (sound_targetOf h hfound) hfoundin
      (sound_targetOf h hplace) hplacein hdirectory hnormal
    rw [resolve_sibling (by rw [hdesc]; exact hs), hr, ← hdenotes, hownpath, hplacepath]
    simp [Except.map, Except.mapError]
  obtain ⟨text, hget, hofString, hfound⟩ | ⟨hget, rfl, hfound, hfoundin⟩ :=
    targetOf_importer h hplace hplacein
  · rw [hwritten hfound hplacein rfl, spells_given_iff, Followed, hget, hofString]
  · obtain ⟨t, ht⟩ := sibling?_cases hs
    rw [hwritten hfound hfoundin (by simp), name_newPlace,
      spells_new_iff hplacein.root (newStem_ne_empty h hfoundin) ht, Followed, hget, newStem_some,
      newStem_none]
    cases form <;> by_cases hsame : e.name = (Path.ofString e.sourcePath).stem <;>
      simp [hsame, eq_comm]

/-! ### A renamed file and one that keeps its name -/

/-- A batch in which what is called `Button` gets a new name. -/
def buttons : Batch where
  naming := { renames := Table.empty.put "Button" "ActionButton" }
  targetDir := Path.ofString "out"
  files := ["Button.jsx", "Modal.jsx"]

/-- A component that imports the button. -/
def modal : Descriptor := { name := "Modal", sourcePath := "Modal.jsx" }

/-- A component in the file of the button. -/
def buttonNamed (name : String) : Descriptor := { name, sourcePath := "Button.jsx" }

/-- The plan of a file that keeps its name. -/
def keptPlan (d : Descriptor) : Plan where
  descriptor := d
  targetPath := buttons.root ++ Path.ofString d.sourcePath
  renames := Table.empty
  rules := []
  pathOverridden := false

/-- The plan of the button, if it is called like its file. -/
def renamedPlan : Plan where
  descriptor := buttonNamed "Button"
  targetPath := buttons.root ++ Path.ofString "ActionButton.jsx"
  renames := Table.empty.put "Button" "ActionButton"
  rules := []
  pathOverridden := false

theorem sound_buttons : buttons.Sound where
  targetDir := Path.sound_ofString "out"
  renames := by
    intro old new h
    rw [buttons, Table.get?_put] at h
    split at h
    · obtain rfl := Option.some.inj h
      decide
    · cases h
  suffix := by decide

theorem below_modal : buttons.Below modal :=
  ⟨⟨"", ["Modal.jsx"]⟩, false, by decide, rfl, by decide, by decide, by decide⟩

theorem below_button : buttons.Below (buttonNamed "Button") :=
  ⟨⟨"", ["ActionButton.jsx"]⟩, false, by decide +kernel, rfl, by decide, by decide,
    by decide +kernel⟩

theorem plan_modal : buttons.plan modal = .ok (keptPlan modal) := by decide +kernel

/-- The import of a button that is called like its file follows it. -/
theorem button_import_follows :
    buttons.Followed (buttonNamed "Button") .extension ∧
      ∃ r, (buttons.resolve (keptPlan modal) "./Button").2 = .ok (some r) ∧
        Denotes (keptPlan modal).targetPath r .extension renamedPlan.targetPath := by
  have hfollowed : buttons.Followed (buttonNamed "Button") .extension := by
    right
    decide +kernel
  refine ⟨hfollowed, (resolve_denotes_iff sound_buttons plan_modal ?_ below_modal below_button ?_).mpr
    hfollowed⟩
  · decide +kernel
  · decide +kernel

/-- A button that is called otherwise keeps its file, and its importers are sent to a file that is
not there. -/
theorem button_import_lost :
    buttons.plan modal = .ok (keptPlan modal) ∧
      buttons.plan (buttonNamed "Btn") = .ok (keptPlan (buttonNamed "Btn")) ∧
      buttons.sibling? modal.sourcePath "./Button" = some ⟨"Button.jsx", .extension⟩ ∧
      (buttons.resolve (keptPlan modal) "./Button").2 = .ok (some "./ActionButton") ∧
      ¬Denotes (keptPlan modal).targetPath "./ActionButton" .extension
        (keptPlan (buttonNamed "Btn")).targetPath := by
  refine ⟨plan_modal, ?_, ?_, ?_, ?_⟩ <;> decide +kernel

end Batch
end Transplant
