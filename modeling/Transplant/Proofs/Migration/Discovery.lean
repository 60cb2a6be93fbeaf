import Transplant.Proofs.Files.Listing
import Transplant.Proofs.Plan.Outputs
import Transplant.Proofs.Text.Order

/-!
# What is found in a project, and in which order

The files of a project are found by walks, and what the walks list is tested by name, collected and
sorted.  Here the result is said without a walk: a path is found just if it leads to a file of the
tree, from a directory that is searched through directories that are not ignored, and the file has a
name as is wanted.  Together with the order, which is strict, that leaves one list only.  It depends
neither on the order in which directories list their entries nor on how often, or from how far above,
a file is come by.

* `Discovery.Listed`: a path that should be found
* `Discovery.ComponentName`, `Discovery.StyleName`: the names of components and of style files
* `Discovery.mem_search?_iff`: the search finds these paths
* `Discovery.Covers`: directories that add nothing to a search
* `Discovery.found_exactly`: what is found
-/

namespace Transplant

namespace Text

theorem occursIn_iff {part l : List Char} : occursIn part l = true ↔ part <:+: l := by
  induction l with
  | nil => simp [occursIn]
  | cons c rest ih =>
    rw [occursIn, Bool.or_eq_true, ih, List.isPrefixOf_iff_prefix, List.infix_cons_iff]

/-- A character that is no letter in lower case has not been a capital. -/
theorem eq_of_toLower {c d : Char} (h : c.toLower = d) (hd : d.toNat < 97) : c = d := by
  unfold Char.toLower at h
  split at h
  · rename_i hcapital
    obtain ⟨hlow, hhigh⟩ := hcapital
    have hlow : 65 ≤ c.val.toNat := hlow
    have hhigh : c.val.toNat ≤ 90 := hhigh
    have hcode : d.toNat = (c.val.toNat + 32) % 2 ^ 32 := by
      rw [← h]
      rfl
    omega
  · exact h

end Text

namespace Path

/-- What is an ending in lower case is one as it is. -/
theorem ending_of_lower {e : String} (h : Ending (Text.lower e)) : Ending e := by
  obtain ⟨rest, hrest, hne, hdot⟩ := h.split
  have hslash := h.slash
  rw [Text.toList_lower] at hrest hslash
  obtain ⟨c, tail, hsplit, hc, rfl⟩ := List.map_eq_cons_iff.mp hrest
  have hkeeps : ∀ d : Char, d.toLower = d → d ∈ tail → d ∈ tail.map Char.toLower := fun d hd hmem =>
    List.mem_map.mpr ⟨d, hmem, hd⟩
  refine ⟨⟨tail, ?_, ?_, fun hmem => hdot (hkeeps '.' (by decide) hmem)⟩, fun hmem => hslash ?_⟩
  · rw [hsplit, Text.eq_of_toLower hc (by decide)]
  · rintro rfl
    exact hne rfl
  · exact List.mem_map.mpr ⟨'/', hmem, by decide⟩

/-- A relative path that leads somewhere is written as its components with slashes between. -/
theorem toString_of_ne_nil {parts : List String} (h : parts ≠ []) :
    (Path.mk "" parts).toString = Text.join "/" parts := by
  obtain ⟨-, hnil, -⟩ | ⟨-, htext⟩ := (Path.mk "" parts).toString_cases
  · exact absurd hnil h
  · rw [htext, String.empty_append]

end Path

/-- What is at a place of a sound tree has a proper name. -/
theorem FileTree.Sound.proper {t : FileTree} (h : t.Sound) {place : List String} {name : String}
    {x : FileTree} (hx : t.get? (place ++ [name]) = some x) : Proper name := by
  rw [get?_append, Option.bind_eq_some_iff] at hx
  obtain ⟨parent, hparent, hx⟩ := hx
  cases parent with
  | file content => cases hx
  | directory entries =>
    obtain ⟨child, hchild, -⟩ := Option.bind_eq_some_iff.mp hx
    exact (h place entries hparent).2 _ ((h.get? hparent).mem_of_lookup hchild)

/-- What leads to something in a sound tree are proper names. -/
theorem FileTree.Sound.proper_of_mem {t : FileTree} (h : t.Sound) {place : List String}
    {x : FileTree} (hx : t.get? place = some x) {name : String} (hname : name ∈ place) :
    Proper name := by
  obtain ⟨above, rest, rfl⟩ := List.append_of_mem hname
  rw [← List.singleton_append, ← List.append_assoc, get?_append, Option.bind_eq_some_iff] at hx
  obtain ⟨y, hy, -⟩ := hx
  exact h.proper hy

namespace Discovery

open FileTree (Proper)

/-! ## Names -/

/-- The name of a component file: there is something in front of its ending, the ending is one of
three, in capitals or not, and no mark of a test or a story is in the name. -/
structure ComponentName (name : String) : Prop where
  ending : ∃ stem ending, name = stem ++ ending ∧ stem ≠ "" ∧
    Text.lower ending ∈ [".js", ".jsx", ".tsx"]
  unmarked : ∀ mark ∈ [".test.", ".spec.", ".stories."], ¬ mark.toList <:+: name.toList

/-- The name of a style file: it ends like one, in capitals or not. -/
def StyleName (name : String) : Prop :=
  ∃ ending ∈ [".css", ".scss", ".sass", ".less", ".styl"],
    ending.toList <:+ (Text.lower name).toList

theorem ending_of_mem {e : String} (h : e ∈ componentEndings) : Path.Ending e := by
  obtain rfl | rfl | rfl : e = ".js" ∨ e = ".jsx" ∨ e = ".tsx" := by
    simpa [componentEndings] using h
  all_goals exact ⟨⟨_, rfl, by decide, by decide⟩, by decide⟩

theorem isComponent_iff {name : String} (hname : Proper name) :
    isComponent name = true ↔ ComponentName name := by
  obtain ⟨hnamed, hslash⟩ := hname
  have hread := Path.ofString_of_component hnamed.ne_empty hnamed.ne_here hslash
  have hendings : Text.lower (Path.ofString name).suffix ∈ componentEndings ↔
      ∃ stem ending, name = stem ++ ending ∧ stem ≠ "" ∧
        Text.lower ending ∈ [".js", ".jsx", ".tsx"] := by
    rw [hread]
    constructor
    · intro hmem
      refine ⟨_, _, (Path.stem_append_suffix ⟨"", [name]⟩).symm, Path.stem_ne_empty ?_, hmem⟩
      intro hnone
      rw [hnone] at hmem
      exact absurd hmem (by decide)
    · rintro ⟨stem, ending, rfl, hstem, hmem⟩
      have hending : Path.Ending ending := Path.ending_of_lower (ending_of_mem hmem)
      rw [(Path.stem_suffix_of_name hending hstem rfl).2]
      exact hmem
  have hmarks : (!otherMarks.any (Text.contains name)) = true ↔
      ∀ mark ∈ [".test.", ".spec.", ".stories."], ¬ mark.toList <:+: name.toList := by
    rw [Bool.not_eq_true', List.any_eq_false]
    exact forall₂_congr fun mark _ => not_congr Text.occursIn_iff
  rw [isComponent, Bool.and_eq_true, List.contains_iff_mem, hendings, hmarks]
  exact ⟨fun h => ⟨h.1, h.2⟩, fun h => ⟨h.1, h.2⟩⟩

theorem isStyle_iff {name : String} : isStyle name = true ↔ StyleName name := by
  rw [isStyle, Text.endsWithAny, List.any_eq_true]
  exact exists_congr fun ending => and_congr_right fun _ => Text.endsWith_iff

/-! ## Paths -/

/-- The path of a directory leads down from where it is read. -/
def Inward (dir : String) : Prop :=
  (Path.ofString dir).root = "" ∧ ".." ∉ (Path.ofString dir).parts

instance (dir : String) : Decidable (Inward dir) := inferInstanceAs (Decidable (_ ∧ _))

/-- A path that should be found from a directory of a tree: it leads to a file, the directories
strictly between are not ignored, and the file has a name as is wanted. -/
def Listed (root : FileTree) (ignored dir : List String) (wanted : String → Prop)
    (path : String) : Prop :=
  ∃ names name content, root.get? (dir ++ (names ++ [name])) = some (.file content) ∧
    (∀ n ∈ names, n ∉ ignored) ∧ wanted name ∧ path = Text.join "/" (dir ++ (names ++ [name]))

/-- Only the names that files of the tree have are asked for. -/
theorem listed_congr {root : FileTree} (hsound : root.Sound) {ignored dir : List String}
    {wanted wanted' : String → Prop} (h : ∀ name, Proper name → (wanted name ↔ wanted' name))
    {path : String} : Listed root ignored dir wanted path ↔ Listed root ignored dir wanted' path := by
  unfold Listed
  refine exists_congr fun names => exists_congr fun name => exists_congr fun content =>
    and_congr_right fun hget => and_congr_right fun _ => and_congr_left fun _ => h name ?_
  rw [← List.append_assoc] at hget
  exact hsound.proper hget

section Search

variable {files : Disk} {j : Job} {root : FileTree} {wanted : String → Bool} {dir : String}

theorem at?_source_iff (hroot : files.at? j.sourceDir = .ok root)
    (hdir : Inward dir) {x : FileTree} :
    files.at? (j.sourceDir.child dir) = .ok x ↔ root.get? (Path.ofString dir).parts = some x := by
  obtain ⟨hleads, hget⟩ := Disk.at?_eq_ok_iff.mp hroot
  rw [at?_child_iff hleads hdir.1 hdir.2, hget, Option.bind_some]

/-- The places below a directory are those of the files that should be found. -/
theorem mem_places?_iff (hroot : files.at? j.sourceDir = .ok root) (hsound : root.Sound)
    (hdir : Inward dir) {place : List String} :
    place ∈ (places? files j wanted dir).getD [] ↔
      ∃ names name content, place = names ++ [name] ∧
        root.get? ((Path.ofString dir).parts ++ place) = some (.file content) ∧
        (∀ n ∈ names, n ∉ j.ignoreDirs) ∧ wanted name = true := by
  constructor
  · intro hplace
    unfold places? at hplace
    split at hplace
    · rename_i entries hat
      have hdirectory := (at?_source_iff hroot hdir).mp hat
      obtain ⟨hbelow, hwanted⟩ := List.mem_filter.mp hplace
      obtain ⟨⟨content, hget⟩, hentered⟩ := (mem_below_iff (hsound.get? hdirectory)).mp hbelow
      obtain rfl | ⟨names, name, rfl⟩ := List.eq_nil_or_concat' place
      · cases hget
      · rw [List.dropLast_concat] at hentered
        rw [List.getLast?_concat, Option.getD_some] at hwanted
        refine ⟨names, name, content, rfl, ?_, hentered, hwanted⟩
        rw [FileTree.get?_append, hdirectory, Option.bind_some, hget]
    · cases hplace
  · rintro ⟨names, name, content, rfl, hget, hentered, hwanted⟩
    rw [FileTree.get?_append, Option.bind_eq_some_iff] at hget
    obtain ⟨x, hx, hget⟩ := hget
    cases x with
    | file other => cases names <;> cases hget
    | directory entries =>
      have hlisted : [] ++ (names ++ [name]) ∈ below j.ignoreDirs [] (.directory entries) := by
        rw [mem_below_iff (hsound.get? hx), List.dropLast_concat]
        exact ⟨⟨content, hget⟩, hentered⟩
      unfold places?
      rw [(at?_source_iff hroot hdir).mpr hx]
      refine List.mem_filter.mpr ⟨hlisted, ?_⟩
      rw [List.getLast?_concat, Option.getD_some]
      exact hwanted

/-- What a search below an inward directory finds. -/
theorem search?_of_inward (hdir : Inward dir) :
    (search? files j wanted dir).getD [] =
      ((places? files j wanted dir).getD []).map fun place =>
        (Path.mk "" ((Path.ofString dir).parts ++ place)).toString := by
  rw [search?_of_relative hdir.1]
  cases places? files j wanted dir <;> rfl

/-- **A search finds the paths that should be found, and no others.** -/
theorem mem_search?_iff (hroot : files.at? j.sourceDir = .ok root) (hsound : root.Sound)
    (hdir : Inward dir) {path : String} :
    path ∈ (search? files j wanted dir).getD [] ↔
      Listed root j.ignoreDirs (Path.ofString dir).parts (fun name => wanted name = true) path := by
  rw [search?_of_inward hdir, List.mem_map]
  constructor
  · rintro ⟨place, hplace, rfl⟩
    obtain ⟨names, name, content, rfl, hget, hentered, hwanted⟩ :=
      (mem_places?_iff hroot hsound hdir).mp hplace
    exact ⟨names, name, content, hget, hentered, hwanted, Path.toString_of_ne_nil (by simp)⟩
  · rintro ⟨names, name, content, hget, hentered, hwanted, rfl⟩
    refine ⟨names ++ [name], (mem_places?_iff hroot hsound hdir).mpr ?_,
      Path.toString_of_ne_nil (by simp)⟩
    exact ⟨names, name, content, rfl, hget, hentered, hwanted⟩

/-- No place is listed twice. -/
theorem nodup_places? (hroot : files.at? j.sourceDir = .ok root) (hsound : root.Sound)
    (hdir : Inward dir) : ((places? files j wanted dir).getD []).Nodup := by
  unfold places?
  split
  · rename_i entries hat
    have hentries := hsound.get? ((at?_source_iff hroot hdir).mp hat)
    exact .filter _ (nodup_below j.ignoreDirs (.directory entries) [] hentries)
  · exact List.nodup_nil

/-- A search finds no path twice. -/
theorem nodup_search? (hroot : files.at? j.sourceDir = .ok root) (hsound : root.Sound)
    (hdir : Inward dir) :
    ((search? files j wanted dir).getD []).Nodup := by
  -- different places are written differently, since each is read back
  have hread : ∀ place ∈ (places? files j wanted dir).getD [],
      Path.ofString (Path.mk "" ((Path.ofString dir).parts ++ place)).toString =
        ⟨"", (Path.ofString dir).parts ++ place⟩ := by
    intro place hplace
    obtain ⟨names, name, content, rfl, hget, -, -⟩ :=
      (mem_places?_iff hroot hsound hdir).mp hplace
    refine Path.ofString_toString (by simp) fun q hq => ?_
    rcases List.mem_append.mp hq with hq | hq
    · exact Path.mem_parts_ofString hq
    · obtain ⟨hnamed, hslash⟩ := hsound.proper_of_mem hget (List.mem_append_right _ hq)
      exact ⟨hnamed.ne_empty, hnamed.ne_here, hslash⟩
  rw [search?_of_inward hdir]
  refine List.Nodup.map_on ?_ (nodup_places? hroot hsound hdir)
  intro place hplace place' hplace' hsame
  have hparts := (hread place hplace).symm.trans
    ((congrArg Path.ofString hsame).trans (hread place' hplace'))
  exact List.append_cancel_left (congrArg Path.parts hparts)

end Search

/-! ## The listings -/

variable {files : Disk} {j : Job} {root : FileTree}

/-- Every directory of a second list is in the first, or lies below one of the first with no ignored
directory in between. -/
def Covers (ignored dirs dirs' : List String) : Prop :=
  ∀ dir' ∈ dirs', ∃ dir ∈ dirs, ∃ names,
    (Path.ofString dir').parts = (Path.ofString dir).parts ++ names ∧ ∀ n ∈ names, n ∉ ignored

theorem Covers.listed {ignored dirs dirs' : List String} (h : Covers ignored dirs dirs')
    {wanted : String → Prop} {path : String}
    (hlisted : ∃ dir ∈ dirs', Listed root ignored (Path.ofString dir).parts wanted path) :
    ∃ dir ∈ dirs, Listed root ignored (Path.ofString dir).parts wanted path := by
  obtain ⟨dir', hdir', names, name, content, hget, hentered, hwanted, rfl⟩ := hlisted
  obtain ⟨dir, hdir, more, hparts, hmore⟩ := h dir' hdir'
  rw [hparts, List.append_assoc, ← List.append_assoc more] at hget
  refine ⟨dir, hdir, more ++ names, name, content, hget, ?_, hwanted, ?_⟩
  · exact List.forall_mem_append.mpr ⟨hmore, hentered⟩
  · rw [hparts, List.append_assoc, ← List.append_assoc more]

/-- Two searches through the same project that differ in the order in which directories list their
entries, and in directories that the others of the list cover. -/
structure Alike (root root' : FileTree) (j k : Job) : Prop where
  tree : root.Reordered root'
  ignored : ∀ n, n ∈ k.ignoreDirs ↔ n ∈ j.ignoreDirs
  covers : Covers j.ignoreDirs (roots j) (roots k)
  covered : Covers j.ignoreDirs (roots k) (roots j)

theorem Alike.listed_iff {root' : FileTree} {k : Job} (h : Alike root root' j k)
    (hsound : root.Sound) {dir : List String} {wanted : String → Prop} {path : String} :
    Listed root' k.ignoreDirs dir wanted path ↔ Listed root j.ignoreDirs dir wanted path := by
  unfold Listed
  simp only [(h.tree.keeps hsound).2, h.ignored]

theorem roots_inward (hdirs : ∀ dir ∈ j.componentDirs, Inward dir) :
    ∀ dir ∈ roots j, Inward dir := by
  intro dir hdir
  unfold roots at hdir
  split at hdir
  · rw [List.mem_singleton.mp hdir]
    decide
  · exact hdirs dir hdir

theorem mem_components_iff (hroot : files.at? j.sourceDir = .ok root) (hsound : root.Sound)
    (hdirs : ∀ dir ∈ j.componentDirs, Inward dir) {path : String} :
    path ∈ (components files j).1 ↔
      ∃ dir ∈ roots j, Listed root j.ignoreDirs (Path.ofString dir).parts ComponentName path := by
  rw [components, Text.mem_sort, Text.mem_distinct_iff, List.flatMap_map, List.mem_flatMap]
  refine exists_congr fun dir => and_congr_right fun hdir => ?_
  rw [mem_search?_iff hroot hsound (roots_inward hdirs dir hdir)]
  exact listed_congr hsound fun name hname => isComponent_iff hname

theorem mem_styles_iff (hroot : files.at? j.sourceDir = .ok root) (hsound : root.Sound)
    {path : String} :
    path ∈ styles files j ↔ Listed root j.ignoreDirs [] StyleName path := by
  rw [styles, Text.mem_sort, mem_search?_iff hroot hsound (by decide)]
  exact listed_congr hsound fun name _ => isStyle_iff

theorem increasing_components (files : Disk) (j : Job) : Text.Increasing (components files j).1 :=
  Text.increasing_sort (Text.nodup_distinct _)

theorem increasing_styles (hroot : files.at? j.sourceDir = .ok root) (hsound : root.Sound) :
    Text.Increasing (styles files j) :=
  Text.increasing_sort (nodup_search? hroot hsound (by decide))

theorem discover_of_inward (files : Disk) (hdirs : ∀ dir ∈ j.componentDirs, Inward dir) :
    discover files j = .ok (components files j) :=
  discover_of_stray? (stray?_of_inside files fun dir hdir => inside_of_relative (hdirs dir hdir).1)

/-- **What is found in a project, and in which order.**  The search comes to an end.  The components
are the files with names of components below the directories that are searched, the styles those with
names of style files below the whole project, both without what is in ignored directories; each is
listed once, in code point order.  Nothing else plays a part. -/
theorem found_exactly (hroot : files.at? j.sourceDir = .ok root) (hsound : root.Sound)
    (hdirs : ∀ dir ∈ j.componentDirs, Inward dir) :
    discover files j = .ok (components files j) ∧
    Text.Increasing (components files j).1 ∧
    (∀ path, path ∈ (components files j).1 ↔
      ∃ dir ∈ roots j, Listed root j.ignoreDirs (Path.ofString dir).parts ComponentName path) ∧
    Text.Increasing (styles files j) ∧
    (∀ path, path ∈ styles files j ↔ Listed root j.ignoreDirs [] StyleName path) ∧
    ∀ (other : Disk) (k : Job) (root' : FileTree), other.at? k.sourceDir = .ok root' →
      (∀ dir ∈ k.componentDirs, Inward dir) → Alike root root' j k →
        discover other k = .ok (components other k) ∧
        (components other k).1 = (components files j).1 ∧ styles other k = styles files j := by
  refine ⟨discover_of_inward files hdirs, increasing_components files j, fun _ => mem_components_iff hroot hsound hdirs,
    increasing_styles hroot hsound, fun _ => mem_styles_iff hroot hsound, ?_⟩
  intro other k root' hroot' hdirs' halike
  have hsound' : root'.Sound := (halike.tree.keeps hsound).1
  refine ⟨discover_of_inward other hdirs', ?_, ?_⟩
  · refine (increasing_components other k).eq_of_mem_iff (increasing_components files j) fun path => ?_
    rw [mem_components_iff hroot' hsound' hdirs', mem_components_iff hroot hsound hdirs]
    simp only [halike.listed_iff hsound]
    exact ⟨halike.covers.listed, halike.covered.listed⟩
  · refine (increasing_styles hroot' hsound').eq_of_mem_iff (increasing_styles hroot hsound)
      fun path => ?_
    rw [mem_styles_iff hroot' hsound', mem_styles_iff hroot hsound, halike.listed_iff hsound]

/-- A directory with two components, the one of them in an ignored directory, and a test. -/
def library : List (String × FileTree) :=
  [("B.tsx", .file []), ("build", .directory [("C.js", .file [])]), ("A.test.jsx", .file [])]

/-- A project of the directory and a style file. -/
def listedOneWay : Disk where
  top := .directory [("lib", .directory library), ("a.CSS", .file [])]

/-- The same project, listed the other way around. -/
def listedOtherWay : Disk where
  top := .directory [("a.CSS", .file []), ("lib", .directory library.reverse)]

/-- A search that begins in the ignored directory as well, and in one that is not there. -/
def searchedOneWay : Job where
  sourceDir := Path.here
  targetDir := ⟨"", ["out"]⟩
  componentDirs := ["lib/build", "lib", "gone"]

/-- The same search: its directories are in another order, written otherwise, repeated, and one more
of them lies below another. -/
def searchedOtherWay : Job where
  sourceDir := Path.here
  targetDir := ⟨"", ["out"]⟩
  componentDirs := ["./lib/", "gone/deep", "gone", "lib//build", "gone"]

theorem sound_listedOneWay : listedOneWay.top.Sound := by
  have hproper : ∀ {name : String}, Lexical.Named name ∧ '/' ∉ name.toList → Proper name := id
  have hbuild : (FileTree.directory [("C.js", .file [])]).Sound :=
    FileTree.sound_directory (by decide) (by simpa [FileTree.sound_file] using hproper (by decide))
  have hlibrary : (FileTree.directory library).Sound := by
    refine FileTree.sound_directory (by decide) ?_
    simp only [library, List.forall_mem_cons, List.not_mem_nil, false_implies, implies_true, and_true,
      FileTree.sound_file]
    exact ⟨hproper (by decide), ⟨hproper (by decide), hbuild⟩, hproper (by decide)⟩
  refine FileTree.sound_directory (by decide) ?_
  simp only [List.forall_mem_cons, List.not_mem_nil, false_implies, implies_true, and_true,
    FileTree.sound_file]
  exact ⟨⟨hproper (by decide), hlibrary⟩, hproper (by decide)⟩

theorem alike_searched :
    Alike listedOneWay.top listedOtherWay.top searchedOneWay searchedOtherWay where
  tree := .trans (.entry (l := []) "lib" (.perm library.reverse_perm.symm)) (.perm (.swap _ _ _))
  ignored _ := Iff.rfl
  covers := by
    show Covers _ ["lib/build", "lib", "gone"] ["./lib/", "gone/deep", "gone", "lib//build", "gone"]
    simp only [Covers, List.forall_mem_cons, List.not_mem_nil, false_implies, implies_true, and_true]
    exact ⟨⟨"lib", by decide, [], by decide, by decide⟩,
      ⟨"gone", by decide, ["deep"], by decide, by decide⟩,
      ⟨"gone", by decide, [], by decide, by decide⟩,
      ⟨"lib/build", by decide, [], by decide, by decide⟩,
      ⟨"gone", by decide, [], by decide, by decide⟩⟩
  covered := by
    show Covers _ ["./lib/", "gone/deep", "gone", "lib//build", "gone"] ["lib/build", "lib", "gone"]
    simp only [Covers, List.forall_mem_cons, List.not_mem_nil, false_implies, implies_true, and_true]
    exact ⟨⟨"lib//build", by decide, [], by decide, by decide⟩,
      ⟨"./lib/", by decide, [], by decide, by decide⟩,
      ⟨"gone", by decide, [], by decide, by decide⟩⟩

/-- The two searches find the same, and the component in the ignored directory as well, since one of
them begins there. -/
theorem found_one_way_or_other :
    listedOneWay.at? searchedOneWay.sourceDir = .ok listedOneWay.top ∧ listedOneWay.top.Sound ∧
      (∀ dir ∈ searchedOneWay.componentDirs, Inward dir) ∧
      Alike listedOneWay.top listedOtherWay.top searchedOneWay searchedOtherWay ∧
      "lib/build/C.js" ∈ (components listedOneWay searchedOneWay).1 ∧
      discover listedOtherWay searchedOtherWay =
        .ok (components listedOtherWay searchedOtherWay) ∧
      (components listedOtherWay searchedOtherWay).1 = (components listedOneWay searchedOneWay).1 ∧
      styles listedOtherWay searchedOtherWay = styles listedOneWay searchedOneWay := by
  have hroot : listedOneWay.at? searchedOneWay.sourceDir = .ok listedOneWay.top := rfl
  have hdirs : ∀ dir ∈ searchedOneWay.componentDirs, Inward dir := by decide
  obtain ⟨-, -, hcomponents, -, -, hsame⟩ := found_exactly hroot sound_listedOneWay hdirs
  refine ⟨hroot, sound_listedOneWay, hdirs, alike_searched, (hcomponents _).mpr ?_,
    hsame listedOtherWay searchedOtherWay listedOtherWay.top rfl (by decide) alike_searched⟩
  refine ⟨"lib/build", by decide, [], "C.js", [], rfl, by decide, ⟨⟨"C", ".js", ?_⟩, ?_⟩, by decide⟩
  · decide
  · decide

end Discovery
end Transplant
