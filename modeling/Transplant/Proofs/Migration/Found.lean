import Transplant.Proofs.Files.Outside
import Transplant.Proofs.Migration.Writing
import Transplant.Proofs.Path.Pure
import Transplant.Proofs.Text.Order

/-!
# What is found in the source project

A migration reads the files that it finds in the source project.  It finds them by walking through
the directories, and it reads them by following paths that are written down as texts in between.  On
a disk whose names can stand in paths (`FileTree.Sound`) the one leads back to the other, so every
file that a migration reads is there at the start.

What is found depends on the tree in the source project alone.  A migration whose output paths do
not enter the source project leaves that tree as it is, so the same files are found afterwards.

* `Discovery.exists_of_mem_below`: the walk lists files of the tree
* `Path.ofString_toString`: a path is read back from its text
* `Migration.Ready.inputsKept_of_sound`: on a sound disk the inputs are kept if they are not written
* `Migration.Ready.same_files_of_avoids`: what is found after a run outside the source project
-/

namespace Transplant

open Lexical

namespace FileTree

/-- A name that can stand in a path. -/
def Proper (name : String) : Prop := Named name ∧ '/' ∉ name.toList

/-- A tree as file systems have them: the names in a directory are distinct and can stand in
paths. -/
def Sound (t : FileTree) : Prop :=
  ∀ place entries, t.get? place = some (.directory entries) →
    (entries.map (·.1)).Nodup ∧ ∀ e ∈ entries, Proper e.1

theorem Sound.get? {t x : FileTree} (h : t.Sound) {place : List String}
    (hx : t.get? place = some x) : x.Sound := by
  intro below entries hget
  refine h (place ++ below) entries ?_
  rw [get?_append, hx, Option.bind_some, hget]

/-- What is in a directory is found under its name. -/
theorem Sound.get?_singleton {entries : List (String × FileTree)} (h : (directory entries).Sound)
    {e : String × FileTree} (he : e ∈ entries) : (directory entries).get? [e.1] = some e.2 := by
  have hnodup := (h [] entries rfl).1
  have hlookup : entries.lookup e.1 = some e.2 :=
    (Table.mem_entries_iff (t := ⟨entries, hnodup⟩)).mp he
  show (entries.lookup e.1).bind (fun child => child.get? []) = some e.2
  rw [hlookup]
  rfl

theorem sound_file (content : Bytes) : (file content).Sound := by
  intro place entries hget
  cases place with
  | nil => cases hget
  | cons name rest => cases hget

theorem sound_directory {entries : List (String × FileTree)} (hnodup : (entries.map (·.1)).Nodup)
    (hentries : ∀ e ∈ entries, Proper e.1 ∧ e.2.Sound) : (directory entries).Sound := by
  intro place below hget
  cases place with
  | nil =>
    obtain rfl := FileTree.directory.inj (Option.some.inj hget)
    exact ⟨hnodup, fun e he => (hentries e he).1⟩
  | cons name rest =>
    obtain ⟨child, hchild, hget⟩ := Option.bind_eq_some_iff.mp hget
    have hmem : (name, child) ∈ entries :=
      (Table.mem_entries_iff (t := ⟨entries, hnodup⟩)).mpr hchild
    exact (hentries (name, child) hmem).2 rest below hget

end FileTree

open FileTree (Proper)

namespace Discovery

mutual

/-- **The walk lists files of the tree.** -/
theorem exists_of_mem_below (ignored : List String) :
    ∀ (t : FileTree) (above : List String), t.Sound → ∀ place ∈ below ignored above t,
      ∃ names content, place = above ++ names ∧ t.get? names = some (.file content) ∧
        ∀ n ∈ names, Proper n
  | .file content, above, _, place, hplace => by
    refine ⟨[], content, ?_, rfl, fun n hn => nomatch hn⟩
    rw [List.append_nil]
    exact List.mem_singleton.mp hplace
  | .directory entries, above, hsound, place, hplace => by
    have hentries : ∀ e ∈ entries, e.2.Sound := fun e he =>
      hsound.get? (hsound.get?_singleton he)
    obtain ⟨e, he, names, content, rfl, hget, hnames⟩ :=
      exists_of_mem_belowEntries ignored entries above hentries place hplace
    refine ⟨e.1 :: names, content, rfl, ?_, fun n hn => ?_⟩
    · rw [← List.singleton_append, FileTree.get?_append, hsound.get?_singleton he,
        Option.bind_some, hget]
    · rcases List.mem_cons.mp hn with rfl | hn
      · exact (hsound [] entries rfl).2 e he
      · exact hnames n hn

theorem exists_of_mem_belowEntries (ignored : List String) :
    ∀ (entries : List (String × FileTree)) (above : List String), (∀ e ∈ entries, e.2.Sound) →
      ∀ place ∈ belowEntries ignored above entries,
        ∃ e ∈ entries, ∃ names content, place = above ++ e.1 :: names ∧
          e.2.get? names = some (.file content) ∧ ∀ n ∈ names, Proper n
  | [], _, _, place, hplace => nomatch hplace
  | (name, child) :: rest, above, hsound, place, hplace => by
    rw [belowEntries] at hplace
    rcases List.mem_append.mp hplace with hplace | hplace
    · split at hplace
      · cases hplace
      · obtain ⟨names, content, rfl, hget, hnames⟩ := exists_of_mem_below ignored child
          (above ++ [name]) (hsound _ List.mem_cons_self) place hplace
        refine ⟨(name, child), List.mem_cons_self, names, content, ?_, hget, hnames⟩
        rw [List.append_assoc, List.singleton_append]
    · obtain ⟨e, he, hfound⟩ := exists_of_mem_belowEntries ignored rest above
        (fun e he => hsound e (List.mem_cons_of_mem _ he)) place hplace
      exact ⟨e, List.mem_cons_of_mem _ he, hfound⟩

end

end Discovery

/-! ## Paths as texts -/

/-- A relative path is read back from its text. -/
theorem Path.ofString_toString {parts : List String} (hne : parts ≠ [])
    (h : ∀ q ∈ parts, q ≠ "" ∧ q ≠ "." ∧ '/' ∉ q.toList) :
    ofString (Path.mk "" parts).toString = ⟨"", parts⟩ := by
  have htext : (Path.mk "" parts).toString = Text.join "/" parts := by
    obtain ⟨-, hnil, -⟩ | ⟨-, htext⟩ := (Path.mk "" parts).toString_cases
    · exact absurd hnil hne
    · rw [htext, String.empty_append]
  have hunrooted := unrooted_join fun q hq => ⟨(h q hq).1, (h q hq).2.2⟩
  rw [htext, ofString, rootOf_of_unrooted hunrooted,
    Text.splitAll_join hne fun q hq => (h q hq).2.2]
  refine congrArg (Path.mk "") (List.filter_eq_self.mpr fun q hq => ?_)
  rw [Bool.and_eq_true, decide_eq_true_eq, decide_eq_true_eq]
  exact ⟨(h q hq).1, (h q hq).2.1⟩

namespace Disk

variable {d : Disk} {p : Path}

theorem destination_append {names : List String} (hnames : ".." ∉ names) :
    d.destination ⟨p.root, p.parts ++ names⟩ = d.destination p ++ names := by
  rw [destination, List.foldl_append, foldl_step hnames]
  rfl

/-- From the place of a path, names that lead down to something can be followed. -/
theorem Leads.append_names (hp : d.Leads p) {names : List String} (hnames : ".." ∉ names)
    (hsome : d.top.sight (d.destination p ++ names) ≠ .nothing) :
    d.Leads ⟨p.root, p.parts ++ names⟩ := by
  refine hp.append fun l name r hsplit => ?_
  have hl : ".." ∉ l := fun hmem => hnames (hsplit ▸ List.mem_append_left _ hmem)
  rw [hsplit, ← List.append_assoc] at hsome
  rw [foldl_step hl]
  exact FileTree.sight_above hsome (List.cons_ne_nil name r)

/-- A file below the place of a path can be read along the path and the names that lead to it. -/
theorem readBytes_below (hp : d.Leads p) {names : List String} (hnames : ".." ∉ names)
    {x : FileTree} (hx : d.top.get? (d.destination p) = some x) {content : Bytes}
    (hfile : x.get? names = some (.file content)) :
    d.readBytes ⟨p.root, p.parts ++ names⟩ = .ok content := by
  have hsight : d.top.sight (d.destination p ++ names) = .file content := by
    rw [FileTree.sight_eq_file_iff, FileTree.get?_append, hx, Option.bind_some, hfile]
  rw [readBytes_eq_ok_iff, destination_append hnames]
  exact ⟨hp.append_names hnames (by simp [hsight]), hsight⟩

end Disk

namespace Discovery

variable {files : Disk} {j : Job}

/-- A place that is found below a directory is that of a file with a name that was wanted. -/
theorem mem_places?_cases (hsound : files.top.Sound) {wanted : String → Bool} {dir : String}
    {place : List String} (h : place ∈ (places? files j wanted dir).getD []) :
    ∃ entries content, files.at? (j.sourceDir.child dir) = .ok (.directory entries) ∧
      (FileTree.directory entries).get? place = some (.file content) ∧ place ≠ [] ∧
      (∀ n ∈ place, Proper n) ∧ wanted (place.getLast?.getD "") = true := by
  unfold places? at h
  split at h
  · rename_i entries hat
    obtain ⟨-, hget⟩ := Disk.at?_eq_ok_iff.mp hat
    obtain ⟨hbelow, hwanted⟩ := List.mem_filter.mp h
    obtain ⟨names, content, hplace, hfile, hnames⟩ :=
      exists_of_mem_below j.ignoreDirs (.directory entries) [] (hsound.get? hget) place hbelow
    obtain rfl : place = names := hplace
    refine ⟨entries, content, hat, hfile, ?_, hnames, hwanted⟩
    rintro rfl
    cases hfile
  · cases h

/-- A file that is found in a directory of the source project has a name that was wanted, and its
path is read as the way to it. -/
theorem mem_search?_cases (hsound : files.top.Sound) {wanted : String → Bool}
    {dir source : String} (h : source ∈ (search? files j wanted dir).getD []) :
    ∃ entries place content, files.at? (j.sourceDir.child dir) = .ok (.directory entries) ∧
      (FileTree.directory entries).get? place = some (.file content) ∧ place ≠ [] ∧
      (∀ n ∈ place, Proper n) ∧ wanted (place.getLast?.getD "") = true ∧
      way j dir place = .ok (Path.ofString source) := by
  rw [search?] at h
  cases hplaces : places? files j wanted dir with
  | none =>
    rw [hplaces] at h
    cases h
  | some places =>
    rw [hplaces, Option.map_some, Option.getD_some] at h
    obtain ⟨place, hplace, hsource⟩ := List.mem_filterMap.mp h
    obtain ⟨q, hq, rfl⟩ := Option.map_eq_some_iff.mp hsource
    have hway := ok_of_toOption hq
    obtain ⟨entries, content, hat, hfile, hne, hnames, hwanted⟩ :=
      mem_places?_cases hsound (by rw [hplaces]; exact hplace)
    have hparts : ∀ n ∈ q.parts, n ≠ "" ∧ n ≠ "." ∧ '/' ∉ n.toList := by
      intro n hn
      rcases List.mem_append.mp ((parts_way hway).subset hn) with hn | hn
      · exact Path.mem_parts_ofString hn
      · exact ⟨(hnames n hn).1.ne_empty, (hnames n hn).1.ne_here, (hnames n hn).2⟩
    have hread : Path.ofString q.toString = q := by
      obtain ⟨root, parts⟩ := q
      obtain rfl : root = "" := (way_eq_ok_iff.mp hway).1
      cases parts with
      | nil => decide
      | cons n rest => exact Path.ofString_toString (List.cons_ne_nil n rest) hparts
    exact ⟨entries, place, content, hat, hfile, hne, hnames, hwanted, by rw [hread]; exact hway⟩

/-- A file that is found in a directory of the source project can be read. -/
theorem readBytes_of_mem_search? (hsound : files.top.Sound) {wanted : String → Bool}
    {dir source : String} (h : source ∈ (search? files j wanted dir).getD []) :
    ∃ bytes, files.readBytes (j.sourceDir.child source) = .ok bytes := by
  obtain ⟨entries, place, content, hat, hfile, -, hnames, -, hway⟩ := mem_search?_cases hsound h
  obtain ⟨hleads, hget⟩ := Disk.at?_eq_ok_iff.mp hat
  have hup : ".." ∉ place := fun hmem => (hnames _ hmem).1.ne_up rfl
  refine ⟨content, ?_⟩
  have hbelow := Disk.readBytes_below hleads hup hget hfile
  rw [Path.child, ← (way_eq_ok_iff.mp hway).2, Path.append_of_relative rfl]
  exact hbelow

/-- The components that are found are found in one of the directories that are searched. -/
theorem exists_root_of_mem_components {source : String} (h : source ∈ (components files j).1) :
    ∃ dir ∈ roots j, source ∈ (search? files j isComponent dir).getD [] := by
  have hmem := Text.mem_distinct_iff.mp (Text.mem_sort.mp h)
  obtain ⟨⟨dir, found⟩, hfound, hsource⟩ := List.mem_flatMap.mp hmem
  obtain ⟨dir', hdir', hpair⟩ := List.mem_map.mp hfound
  obtain ⟨rfl, rfl⟩ := Prod.mk.inj hpair
  exact ⟨dir', hdir', hsource⟩

theorem readBytes_of_mem_components (hsound : files.top.Sound) {source : String}
    (h : source ∈ (components files j).1) :
    ∃ bytes, files.readBytes (j.sourceDir.child source) = .ok bytes := by
  obtain ⟨dir, -, hsource⟩ := exists_root_of_mem_components h
  exact readBytes_of_mem_search? hsound hsource

theorem readBytes_of_mem_styles (hsound : files.top.Sound) {source : String}
    (h : source ∈ styles files j) :
    ∃ bytes, files.readBytes (j.sourceDir.child source) = .ok bytes :=
  readBytes_of_mem_search? hsound (List.mem_mergeSort.mp h)

end Discovery

/-- **On a sound disk, the inputs of a migration are kept if it does not write them.**  All of them
have been found, so they are there. -/
theorem Migration.Ready.inputsKept_of_sound {j : Job} {files : Disk} (g : Ready j files)
    {faults : Faults} (hsound : files.top.Sound)
    (hkept : ∀ source ∈ g.found, ∀ p ∈ Work.inputs g.batch j files source, ∀ e ∈ g.sent faults,
      files.destination e.1 ≠ files.destination p) : g.InputsKept faults := by
  refine ⟨fun source hsource p hp => ?_, hkept⟩
  obtain ⟨s, rfl, rfl | hstyle⟩ := Work.mem_inputs_cases hp
  · exact Discovery.readBytes_of_mem_components hsound hsource
  · exact Discovery.readBytes_of_mem_styles hsound hstyle

/-! ## Finding the same files again -/

namespace World

variable (b : Batch) (j : Job) (faults : Faults) {place : List String}

theorem get?_writeAll (l : List (Path × String)) (w : World)
    (hplace : w.files.top.sight place = .directory)
    (hl : ∀ e ∈ l, w.files.Avoids place e.1 ∧ e.1 ≠ Path.here) :
    (w.writeAll faults l).1.files.top.get? place = w.files.top.get? place := by
  -- the paths avoid the directory on the disks in between as well, since these have grown
  refine (writeAll_preserves faults
    (P := fun v => Disk.Grows (fun _ => True) w.files v.files ∧
      v.files.top.get? place = w.files.top.get? place)
    l w ⟨.refl _ _, rfl⟩ fun e he v hv => ?_).2
  obtain ⟨hgrows, hsame⟩ := hv
  obtain ⟨havoids, hhere⟩ := hl e he
  refine ⟨hgrows.trans ((grows_write faults v hhere e.2).mono fun _ _ => trivial), ?_⟩
  rcases files_write faults v e.1 e.2 with hleft | hwrite
  · rw [hleft, hsame]
  · rw [hwrite, Disk.get?_write (hgrows.top.directory hplace) (hgrows.avoids havoids) hhere, hsame]

/-- Commits that send nothing into a directory leave it as it is. -/
theorem get?_foldl_commit (works : List Work) (w : World) (hw : ∀ x ∈ works, x.Proper b)
    (hplace : w.files.top.sight place = .directory)
    (hsent : ∀ e ∈ sent b j faults w works, w.files.Avoids place e.1) :
    (works.foldl (commit b j faults) w).files.top.get? place = w.files.top.get? place := by
  induction works generalizing w with
  | nil => rfl
  | cons x rest ih =>
    have hx := hw x List.mem_cons_self
    have hhanded : ∀ e ∈ handed b j w x, w.files.Avoids place e.1 ∧ e.1 ≠ Path.here :=
      fun e he => ⟨hsent e (List.mem_append_left _ he), ne_here_of_mem_handed b j hx he⟩
    have hfirst : (commit b j faults w x).files.top.get? place = w.files.top.get? place := by
      rw [files_commit]
      exact get?_writeAll faults (handed b j w x) { w with registry := enrol w.registry x } hplace
        hhanded
    have hgrows := grows_commit b j faults w hx
    refine (ih (commit b j faults w x) (fun y hy => hw y (List.mem_cons_of_mem _ hy))
      (hgrows.top.directory hplace) fun e he => ?_).trans hfirst
    exact hgrows.avoids (hsent e (List.mem_append_right _ he))

end World

namespace Discovery

variable {files after : Disk} {j : Job}

/-- What a path that only goes down from a directory leads to is what is below that directory. -/
theorem at?_child_iff {dir : Path} (hdir : files.Leads dir) {s : String}
    (hroot : (Path.ofString s).root = "") (hdown : ".." ∉ (Path.ofString s).parts)
    {x : FileTree} :
    files.at? (dir.child s) = .ok x ↔
      (files.top.get? (files.destination dir)).bind (·.get? (Path.ofString s).parts) = some x := by
  rw [Disk.at?_eq_ok_iff, Path.child, Path.append_of_relative hroot, Disk.destination_append hdown,
    FileTree.get?_append, and_iff_right_iff_imp]
  intro hget
  refine hdir.append_names hdown ?_
  rw [ne_eq, FileTree.sight_eq_nothing_iff, FileTree.get?_append, hget]
  exact Option.some_ne_none x

/-- Two disks with the same source project have the same files to be found in it. -/
theorem places?_congr (hbefore : files.Leads j.sourceDir) (hafter : after.Leads j.sourceDir)
    (hsame : after.top.get? (after.destination j.sourceDir) =
      files.top.get? (files.destination j.sourceDir)) (wanted : String → Bool) {dir : String}
    (hroot : (Path.ofString dir).root = "") (hdown : ".." ∉ (Path.ofString dir).parts) :
    places? after j wanted dir = places? files j wanted dir := by
  have hat : ∀ x, after.at? (j.sourceDir.child dir) = .ok x ↔
      files.at? (j.sourceDir.child dir) = .ok x := by
    intro x
    rw [at?_child_iff hafter hroot hdown, at?_child_iff hbefore hroot hdown, hsame]
  unfold places?
  cases hx : files.at? (j.sourceDir.child dir) with
  | ok x => rw [(hat x).mpr hx]
  | error e =>
    cases hy : after.at? (j.sourceDir.child dir) with
    | ok y =>
      rw [(hat y).mp hy] at hx
      cases hx
    | error e' => rfl

theorem search?_congr {wanted : String → Bool} {dir : String}
    (h : places? after j wanted dir = places? files j wanted dir) :
    search? after j wanted dir = search? files j wanted dir := by
  rw [search?, search?, h]

theorem components_congr
    (h : ∀ dir ∈ roots j, places? after j isComponent dir = places? files j isComponent dir) :
    components after j = components files j := by
  have hfound : (roots j).map (fun dir => (dir, search? after j isComponent dir)) =
      (roots j).map fun dir => (dir, search? files j isComponent dir) :=
    List.map_congr_left fun dir hdir => by rw [search?_congr (h dir hdir)]
  unfold components
  rw [hfound]

end Discovery

namespace Migration

theorem checkRoots_iff {j : Job} {files : Disk} :
    checkRoots j files = .ok () ↔
      files.isDirectoryAt j.sourceDir = true ∧ files.isDirectoryAt j.targetDir = true := by
  unfold checkRoots
  cases files.isDirectoryAt j.sourceDir <;> cases files.isDirectoryAt j.targetDir <;>
    simp [bind, Except.bind, pure, Except.pure, throw, throwThe, MonadExceptOf.throw]

/-- **A migration that sends nothing into the source project finds the same files again.** -/
theorem Ready.same_files_of_avoids {j : Job} {files : Disk} (g : Ready j files)
    {faults : Faults}
    (hdirs : ∀ dir ∈ j.componentDirs,
      (Path.ofString dir).root = "" ∧ ".." ∉ (Path.ofString dir).parts)
    (havoids : ∀ e ∈ g.sent faults, files.Avoids (files.destination j.sourceDir) e.1) :
    (∃ log, Discovery.discover (g.committed faults g.found.length).files j =
        .ok (g.found, log)) ∧
      Discovery.styles (g.committed faults g.found.length).files j =
        Discovery.styles files j := by
  have hsource := (Disk.isDirectoryAt_iff.mp (checkRoots_iff.mp g.roots).1)
  have hgrows := g.grows_committed faults
  have hsame := World.get?_foldl_commit g.batch j faults g.all g.opening
    (fun x hx => g.proper_of_mem_all hx) hsource.2 havoids
  have hsearch : ∀ wanted : String → Bool, ∀ dir : String, (Path.ofString dir).root = "" →
      ".." ∉ (Path.ofString dir).parts →
        Discovery.places? (g.committed faults g.found.length).files j wanted dir =
          Discovery.places? files j wanted dir := by
    intro wanted dir hroot hdown
    refine Discovery.places?_congr hsource.1 (hgrows.leads hsource.1) ?_ wanted hroot hdown
    rw [hgrows.destination, Ready.committed, g.works_length]
    exact hsame
  constructor
  · have hcomponents : Discovery.components (g.committed faults g.found.length).files j =
        Discovery.components files j := by
      refine Discovery.components_congr fun dir hdir => ?_
      unfold Discovery.roots at hdir
      split at hdir
      · rw [List.mem_singleton.mp hdir, hsearch _ "" (by decide) (by decide)]
      · exact hsearch _ dir (hdirs dir hdir).1 (hdirs dir hdir).2
    have hinside := Discovery.stray?_of_inside (g.committed faults g.found.length).files
      fun dir hdir => Discovery.inside_of_relative (hdirs dir hdir).1
    rw [Discovery.discover_of_stray? hinside, hcomponents]
    exact ⟨_, rfl⟩
  · unfold Discovery.styles
    rw [Discovery.search?_congr (hsearch _ "" (by decide) (by decide))]

end Migration
end Transplant
