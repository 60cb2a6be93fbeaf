import Mathlib
import Transplant.CommandLine.Job
import Transplant.Proofs.Migration.Collisions
import Transplant.Proofs.Path.Below

/-!
# Where a run writes

Everything that a run leaves behind is to go below one directory, which is named after the project
that the files come from.  Tests and style files do.  A component goes to the place that its file
has in the source project, and that is not always below the project: the directories that are
searched are taken as they are configured, and one that leads out of the project leads out of the
target directory as well.

`Migration.below_root_iff` says which components are below and which are not, for every job that can
be configured without paths for single files, and that all is well as long as no directory to be
searched leads up.  `written_outside` is a run that writes beside its directory.

## The argument

Names do no harm: no slash stands in the name of a component, so a test stays in the directory of
tests, and new names are names of files.  The directory itself ends with a
name, whatever has been configured for it (`Settings.exists_directory`).  What is left is the way of
the file in the source project, and `Path.below_append_iff` decides about that.

* `CommandLine.Arguments.validate_job`: a job that is configured has been checked
* `Discovery.named_of_mem_styles`, `Discovery.exists_of_mem_components`: the ways of files
* `Discovery.LeadsUp`: directories that lead out of the project
* `Product.Regular.below_iff`: which files of a product are below
-/

namespace Transplant

open Lexical Schedule
open Discovery (isComponent isStyle)

/-! ## Jobs that can be configured -/

/-- Checking settings changes nothing about them, and it checks the suffix. -/
theorem Settings.validate_cases {s s' : Settings} (h : s.validate = .ok s') :
    s' = s ∧ checkSuffix s.suffix = .ok () := by
  unfold validate at h
  generalize isOneOf s.defaultStyle styles = style at h
  generalize isOneOf s.mismatch strategies = mismatch at h
  cases hsuffix : checkSuffix s.suffix with
  | error e =>
    rw [hsuffix] at h
    cases style <;> cases mismatch <;> cases h
  | ok u =>
    rw [hsuffix] at h
    generalize s.renames.entries.findSome? badRename? = bad at h
    cases style <;> cases mismatch <;> cases bad <;> cases h
    exact ⟨rfl, rfl⟩

theorem CommandLine.Requests.validate_over {r : Requests} {s s' : Settings}
    (h : r.over s = .ok s') : s'.validate = .ok s' := by
  obtain ⟨importPrefixes, -, h⟩ := exists_of_bind h
  obtain ⟨renames, -, h⟩ := exists_of_bind h
  have hsame := (Settings.validate_cases h).1
  rwa [← hsame] at h

/-- The settings of a job that is configured have been checked. -/
theorem CommandLine.Arguments.validate_job {a : Arguments} {config : Disk} {j : Job}
    (h : a.job config = .ok j) : j.settings.validate = .ok j.settings := by
  obtain ⟨file, -, h⟩ := exists_of_bind h
  obtain ⟨data, -, h⟩ := exists_of_bind h
  obtain ⟨naming, -, h⟩ := exists_of_bind h
  obtain ⟨configured, -, h⟩ := exists_of_bind h
  obtain ⟨settings, hsettings, h⟩ := exists_of_bind h
  obtain ⟨table, -, h⟩ := exists_of_bind h
  obtain ⟨workers, -, h⟩ := exists_of_bind h
  obtain ⟨discovery, -, h⟩ := exists_of_bind h
  obtain rfl := Except.ok.inj h
  exact Requests.validate_over hsettings

/-! ## The directory of a job -/

/-- Something that does not end with a dot behind it makes a text a name. -/
theorem named_append_of_last {last : String} {c : Char} (hlast : last.toList.getLast? = some c)
    (hc : c ≠ '.') (part : String) : Named (part ++ last) := by
  have hend : (part ++ last).toList.getLast? = some c := by
    rw [String.toList_append, List.getLast?_append, hlast, Option.some_or]
  constructor <;> intro h <;> rw [h] at hend
  · cases hend
  · exact hc (Option.some.inj hend).symm
  · exact hc (Option.some.inj hend).symm

/-- The directory of settings that have been checked ends with a name. What is shown of a suffix
that is no text may have slashes, but it ends with a bracket. -/
theorem Settings.exists_directory {s s' : Settings} (h : s.validate = .ok s') :
    ∃ front last, s.directory = front ++ last ∧ '/' ∉ last.toList ∧
      ∀ part : String, Named (part ++ last) := by
  obtain ⟨-, hsuffix⟩ := validate_cases h
  unfold checkSuffix at hsuffix
  unfold directory Naming.directoryFor
  split at hsuffix
  · cases hsuffix
  cases hvalue : s.suffix with
  | text t =>
    rw [hvalue] at hsuffix
    refine ⟨"", "components_" ++ t, (String.empty_append).symm, fun hslash => ?_, fun part => ?_⟩
    · rw [String.toList_append, List.mem_append] at hslash
      rcases hslash with hslash | hslash
      · exact absurd hslash (by decide)
      · simp [hasSlash?, hslash] at hsuffix
    · refine named_of_length ?_
      rw [String.toList_append, String.toList_append, List.length_append, List.length_append]
      exact Nat.lt_add_left _ (Nat.lt_add_right _ (by decide))
  | list items =>
    refine ⟨"components_" ++ ("[" ++ Text.join ", " (Value.shownItems items)), "]", ?_, by decide,
      named_append_of_last rfl (by decide)⟩
    rw [String.append_assoc]
    rfl
  | table entries =>
    refine ⟨"components_" ++ ("\x7b" ++ Text.join ", " (Value.shownEntries entries)), "\x7d", ?_,
      by decide, named_append_of_last rfl (by decide)⟩
    rw [String.append_assoc]
    rfl
  | _ => simp [hvalue, hasSlash?] at hsuffix

/-- The directory that a job is to write below. -/
def Job.root (j : Job) : Path :=
  (j.targetDir.child j.settings.naming.subdir.shown).child j.settings.directory

theorem Path.exists_last_ofString {front last : String} (hslash : '/' ∉ last.toList)
    (hnamed : ∀ part : String, Named (part ++ last)) :
    ∃ above name, (ofString (front ++ last)).parts = above ++ [name] ∧ Named name := by
  obtain ⟨before, part, -, hsplit⟩ := Text.splitAll_append_of_notMem (s := front) hslash
  refine ⟨before.filter fun p => p ≠ "" && p ≠ ".", part ++ last, ?_, hnamed part⟩
  rw [ofString, hsplit, List.filter_append, List.filter_singleton]
  simp [(hnamed part).ne_empty, (hnamed part).ne_here]

theorem Path.exists_last_child (p : Path) {s : String}
    (h : ∃ above name, (ofString s).parts = above ++ [name] ∧ Named name) :
    ∃ above name, (p.child s).normal.parts = above ++ [name] ∧ Named name := by
  obtain ⟨above, name, hparts, hname⟩ := h
  obtain ⟨above', hchild⟩ : ∃ above', (p.child s).parts = above' ++ [name] := by
    by_cases hroot : (ofString s).root = ""
    · refine ⟨p.parts ++ above, ?_⟩
      rw [child, append_of_relative hroot, hparts, List.append_assoc]
    · refine ⟨above, ?_⟩
      rw [child, show p ++ ofString s = ofString s from if_neg hroot, hparts]
  refine ⟨(travel ((p.child s).root ≠ "") [] above').reverse, name, ?_, hname⟩
  rw [normal, hchild, travel_append, travel_cons, travel_nil, step_named hname, List.reverse_cons]

/-- The directory of a job whose settings have been checked ends with a name. -/
theorem Job.exists_last_root {j : Job} {s : Settings} (h : j.settings.validate = .ok s) :
    ∃ above name, j.root.normal.parts = above ++ [name] ∧ Named name := by
  obtain ⟨front, last, hdirectory, hslash, hnamed⟩ := Settings.exists_directory h
  refine Path.exists_last_child _ ?_
  rw [hdirectory]
  exact Path.exists_last_ofString hslash hnamed

/-- The batch of a migration writes below the directory of the job. -/
theorem Migration.Ready.root_batch {j : Job} {files : Disk} (g : Ready j files) :
    g.batch.root = j.root := by
  have hsame : g.settings.subdir = j.settings.subdir ∧ g.settings.suffix = j.settings.suffix := by
    obtain ⟨source, -, h⟩ := exists_of_bind g.aliases
    obtain ⟨target, -, h⟩ := exists_of_bind h
    dsimp only at h
    split at h
    · obtain ⟨h, -⟩ := Prod.mk.inj (Except.ok.inj h)
      rw [← h]
      exact ⟨rfl, rfl⟩
    · obtain ⟨h, -⟩ := Prod.mk.inj (Except.ok.inj h)
      rw [← h]
      exact ⟨rfl, rfl⟩
  unfold Batch.root Job.root
  show ((j.targetDir.child (Settings.nameOf g.settings.subdir).shown).child
    (Naming.directoryFor g.settings.suffix.asText)) = _
  rw [hsame.1, hsame.2]
  rfl

/-! ## Ways of files -/

namespace Discovery

variable {files : Disk} {j : Job}

/-- A style file is named, and so are the directories that lead to it. -/
theorem named_of_mem_styles (hsound : files.top.Sound) {asset : String}
    (h : asset ∈ styles files j) : ∀ q ∈ (Path.ofString asset).parts, Named q := by
  obtain ⟨entries, place, content, -, -, -, hnames, -, hway⟩ :=
    mem_search?_cases hsound (List.mem_mergeSort.mp h)
  rw [way_of_relative (by decide)] at hway
  rw [← Except.ok.inj hway]
  exact fun q hq => (hnames q hq).1

/-- A directory that leads up from the project, as it is written. -/
def LeadsUp (j : Job) (dir : String) : Prop :=
  ∃ q, (j.sourceDir.child dir).relativeTo j.sourceDir = .ok q ∧ ".." ∈ q.normal.parts

/-- A directory that is relative to the project leads up just if its path does. -/
theorem leadsUp_of_relative {dir : String} (hdir : (Path.ofString dir).root = "") :
    LeadsUp j dir ↔ ".." ∈ (Path.ofString dir).normal.parts := by
  have hway : (j.sourceDir.child dir).relativeTo j.sourceDir = .ok (Path.ofString dir) :=
    Path.relativeTo_append hdir
  constructor
  · rintro ⟨q, hq, hup⟩
    rwa [Except.ok.inj (hway.symm.trans hq)]
  · exact fun hup => ⟨_, hway, hup⟩

/-- The way of a component file, without its name, is a way that leads down from the directory that
has been searched, or from the project if that is below the directory. -/
theorem exists_of_mem_components (hsound : files.top.Sound)
    (hroot : files.isDirectoryAt j.sourceDir = true) {source : String}
    (h : source ∈ (components files j).1) :
    ∃ dir ∈ roots j, ∃ above place, (Path.ofString source).parts.dropLast = above ++ place ∧
      (∀ q ∈ place, Named q) ∧
      (above = [] ∨ (j.sourceDir.child dir).relativeTo j.sourceDir = .ok ⟨"", above⟩) := by
  obtain ⟨dir, hdir, hsource⟩ := exists_root_of_mem_components h
  have hname := (found_of_mem_search? hsound hroot hsource).name
  obtain ⟨entries, place, content, -, -, hne, hnames, -, hway⟩ := mem_search?_cases hsound hsource
  obtain ⟨hrelative, hplace⟩ := way_eq_ok_iff.mp hway
  rw [Path.append_of_relative rfl, Path.append_of_relative hrelative, Path.mk.injEq] at hplace
  obtain ⟨hroots, hparts⟩ := hplace
  have hnamed : ∀ q ∈ place, Named q := fun q hq => (hnames q hq).1
  refine ⟨dir, hdir, ?_⟩
  obtain ⟨above, hsame, rfl⟩ | ⟨above, hsame, hdown⟩ := List.append_eq_append_iff.mp hparts
  · refine ⟨[], _, rfl, fun q hq => hnamed q ?_, .inl rfl⟩
    exact List.mem_append_right _ (List.dropLast_subset _ hq)
  · refine ⟨above, place.dropLast, ?_, fun q hq => hnamed q (List.dropLast_subset _ hq), .inr ?_⟩
    · rw [hdown, List.dropLast_append_of_ne_nil hne]
    · have hdirectory : j.sourceDir.child dir = j.sourceDir ++ ⟨"", above⟩ := by
        rw [Path.append_of_relative rfl, ← hsame, ← hroots]
      rw [hdirectory, Path.relativeTo_append rfl]

end Discovery

/-! ## Files of products -/

/-- A new name is a name. -/
theorem Batch.named_newName {b : Batch} (h : b.RenamesToIdentifiers) {source : String}
    (component : Option String) (hname : Named (Path.ofString source).name) :
    Named (b.newName source component) := by
  rcases newStem_cases h source component with hstem | hident
  · rw [newName, hstem, Path.stem_append_suffix]
    exact hname
  · exact Text.named_of_isIdentifier hident _

namespace Product

variable {b : Batch} {p : Product} {source : String} {o : Origin × Path}

/-- **Which files of a product are below the directory of the batch**: its test, its style files,
and the component if the way of its file returns there. -/
theorem Regular.below_iff (h : b.RenamesToIdentifiers) (hp : p.Regular b source)
    (hsource : Discovery.Found isComponent source)
    (hstyles : ∀ asset ∈ b.assets, Discovery.Found isStyle asset ∧
      ∀ q ∈ (Path.ofString asset).parts, Named q)
    (hlast : ∃ above name, b.root.normal.parts = above ++ [name] ∧ Named name)
    (ho : o ∈ p.placed b) :
    o.2.Below b.root ↔
      ∀ s, o.1 = .component s → b.root.Returns (Path.ofString s).parts.dropLast := by
  obtain rfl | rfl | ⟨asset, hasset, rfl⟩ := hp.mem_placed ho
  · -- the ending makes the new name a name
    have hending := hsource.ending.1
    have hnamed : Named (b.newName source (some p.plan.descriptor.name)) :=
      hending.named (Batch.newStem_ne_empty_of_suffix h _ hending.ne_empty)
    have hroot : (b.newPlace source (some p.plan.descriptor.name)).root = "" := hsource.root
    have hplace : _ ↔ b.root.Returns (Path.ofString source).parts.dropLast :=
      Path.below_append_iff hnamed hlast
    rw [hp.targetPath, Path.append_of_relative hroot]
    exact hplace.trans (by simp)
  · refine iff_of_true ?_ nofun
    have htarget : '/' ∉ p.plan.targetPath.name.toList := by
      rw [hp.name_targetPath]
      exact (Batch.newName_component h _ hsource.name).2.2
    obtain ⟨ending, -, hpath⟩ := Batch.testPath_eq (b := b) hp.slash_targetName htarget
    have htests : b.root.child "__tests__" = ⟨b.root.root, b.root.parts ++ ["__tests__"]⟩ :=
      Path.append_of_relative rfl
    rw [hpath, htests]
    dsimp only
    rw [List.append_assoc]
    refine Path.below_of_named (List.cons_ne_nil _ _) fun n hn => ?_
    rcases List.mem_cons.mp hn with rfl | hn
    · decide
    · rw [List.mem_singleton.mp hn]
      refine named_of_length ?_
      rw [String.toList_append, String.toList_append, List.length_append, List.length_append]
      exact Nat.lt_add_right _ (Nat.lt_add_left _ (by decide))
  · refine iff_of_true ?_ nofun
    obtain ⟨hfound, hnamed⟩ := hstyles asset hasset
    have hroot : (b.newPlace asset none).root = "" := hfound.root
    rw [Path.append_of_relative hroot]
    refine Path.below_of_named (by simp [Batch.newPlace]) fun n hn => ?_
    rcases List.mem_append.mp hn with hn | hn
    · exact hnamed n (List.dropLast_subset _ hn)
    · rw [List.mem_singleton.mp hn]
      exact Batch.named_newName h none (hnamed _ (Path.name_mem hfound.name))

end Product

/-! ## Runs -/

namespace Migration

variable {a : CommandLine.Arguments} {config files : Disk} {j : Job}

namespace Ready

variable (g : Ready j files) {faults : Faults} {calledOff : Nat → World → Bool} {k : Nat}
  {works : List Work} {p : Product}

/-- The way of a file that has been found goes down, if the directories that are searched do. -/
theorem returns_of_mem_found (hsound : files.top.Sound)
    (hdown : ∀ dir ∈ j.componentDirs, ¬ Discovery.LeadsUp j dir) {source : String}
    (h : source ∈ g.found) : j.root.Returns (Path.ofString source).parts.dropLast := by
  obtain ⟨dir, hdir, above, place, hway, hplace, habove⟩ :=
    Discovery.exists_of_mem_components hsound (checkRoots_iff.mp g.roots).1 h
  have hsearched : ¬ Discovery.LeadsUp j dir := by
    unfold Discovery.roots at hdir
    split at hdir
    · rw [List.mem_singleton.mp hdir, Discovery.leadsUp_of_relative (by decide)]
      decide
    · exact hdown dir hdir
  have hup : ".." ∉ (travel false [] above).reverse := by
    obtain rfl | habove := habove
    · exact List.not_mem_nil
    · exact fun hup => hsearched ⟨_, habove, hup⟩
  refine Path.returns_of_notMem ?_
  rw [hway, travel_append, travel_named hplace, List.reverse_append, List.reverse_reverse,
    List.mem_append]
  rintro (hmem | hmem)
  · exact hup hmem
  · exact (hplace _ hmem).ne_up rfl

end Ready

/-- **What a run writes is below its directory, except for components whose files are outside of the
project.**  Let a job be configured without paths for single files, and let the migration be able to
begin.  The writer is called for the files of the products that the registry takes up.  A test and a
style file are below the directory of the job.  A component is below it if and only if the way of its
file in the source project returns there.  All of them are below it if no directory to be searched
leads up. -/
theorem below_root_iff (hjob : a.job config = .ok j)
    (hpaths : j.settings.pathOverrides = Table.empty) (g : Ready j files)
    (hsound : files.top.Sound) (faults : Faults) (calledOff : Nat → World → Bool) :
    ∃ k ≤ g.found.length, ∃ works out,
      Worked (g.schedule faults calledOff) g.opening (g.found.take k) works ∧
      ((∀ n w, calledOff n w = false) → k = g.found.length) ∧
      run j faults calledOff files = .ok out ∧
      out.files = (World.passed g.batch j faults g.opening works).foldl (Disk.send faults) files ∧
      (∀ e ∈ World.passed g.batch j faults g.opening works,
        ∃ p ∈ World.accepted Registry.empty works, ∃ o ∈ p.placed g.batch, o.2 = e.1) ∧
      (∀ p ∈ World.accepted Registry.empty works, ∀ o ∈ p.placed g.batch,
        (o.2.Below j.root ↔ ∀ source, o.1 = .component source →
          j.root.Returns (Path.ofString source).parts.dropLast)) ∧
      ((∀ dir ∈ j.componentDirs, ¬ Discovery.LeadsUp j dir) →
        ∀ e ∈ World.passed g.batch j faults g.opening works, e.1.Below j.root) := by
  have hvalid := CommandLine.Arguments.validate_job hjob
  have hroot := (checkRoots_iff.mp g.roots).1
  obtain ⟨k, hk, works, hworks, hfiles, hcalm⟩ := g.exists_worked faults calledOff
  have hplaced := fun e he => g.exists_placed_of_mem_passed hvalid hpaths hworks (e := e) he
  have hbelow : ∀ p ∈ World.accepted Registry.empty works, ∀ o ∈ p.placed g.batch,
      (o.2.Below j.root ↔ ∀ source, o.1 = .component source →
        j.root.Returns (Path.ofString source).parts.dropLast) := by
    intro p hp o ho
    obtain ⟨hsource, hregular⟩ := g.regular_of_mem_accepted hvalid hpaths hworks hp
    rw [← g.root_batch]
    refine hregular.below_iff (g.renamesToIdentifiers hvalid)
      (Discovery.found_of_mem_components hsound hroot hsource) (fun asset hasset => ?_) ?_ ho
    · exact ⟨Discovery.found_of_mem_styles hsound hroot hasset,
        Discovery.named_of_mem_styles hsound hasset⟩
    · rw [g.root_batch]
      exact Job.exists_last_root hvalid
  refine ⟨k, hk, works, _, hworks, hcalm, g.run_eq faults calledOff, hfiles, hplaced, hbelow,
    fun hdown e he => ?_⟩
  obtain ⟨p, hp, o, ho, hpath⟩ := hplaced e he
  obtain ⟨hsource, hregular⟩ := g.regular_of_mem_accepted hvalid hpaths hworks hp
  rw [← hpath]
  refine (hbelow p hp o ho).mpr fun source hcomponent => ?_
  have hsame : source = p.plan.descriptor.sourcePath := by
    obtain rfl | rfl | ⟨asset, -, rfl⟩ := hregular.mem_placed ho
    · exact (Origin.component.inj hcomponent).symm
    · cases hcomponent
    · cases hcomponent
  rw [hsame]
  exact g.returns_of_mem_found hsound hdown hsource

/-! ## A job from the command line -/

/-- The two projects, and tests if they are asked for. -/
def spare (generateTests : Bool) : CommandLine.Arguments :=
  ⟨.value ⟨"", ["source"]⟩, .value ⟨"", ["target"]⟩, { generateTests }⟩

/-- The job without a configuration file. -/
def spareJob (generateTests : Bool) : Job := { tested with generateTests }

theorem job_spare (generateTests : Bool) :
    (spare generateTests).job { top := .empty } = .ok (spareJob generateTests) := by rfl

theorem sound_styledFiles : styledFiles.top.Sound := by
  have hproper : ∀ {name : String}, Named name ∧ '/' ∉ name.toList → FileTree.Proper name := id
  refine FileTree.sound_directory (by decide) ?_
  simp only [List.forall_mem_cons, List.not_mem_nil, false_implies, implies_true, and_true]
  refine ⟨⟨hproper (by decide), FileTree.sound_directory (by decide) ?_⟩, hproper (by decide),
    FileTree.sound_directory .nil nofun⟩
  simp only [List.forall_mem_cons, List.not_mem_nil, false_implies, implies_true, and_true,
    FileTree.sound_file]
  exact ⟨hproper (by decide), hproper (by decide)⟩

/-- Where no directories are configured, the component, its test and its style file are written
below the directory of the job. -/
theorem spare_below_root :
    (spare true).job { top := .empty } = .ok (spareJob true) ∧ styledFiles.top.Sound ∧
    ∃ (passed : List (Path × String)) (out : Outcome), passed.map (·.1) = testedPaths ∧
      run (spareJob true) (fun _ => none) (fun _ _ => false) styledFiles = .ok out ∧
      out.files = passed.foldl (Disk.send fun _ => none) styledFiles ∧
      ∀ e ∈ passed, e.1.Below ⟨"", ["target", "src", "components_migrated_from_source"]⟩ := by
  have hroot : (spareJob true).root =
      ⟨"", ["target", "src", "components_migrated_from_source"]⟩ := by decide
  obtain ⟨k, -, works, out, hworks, hcalm, hrun, hfiles, -, -, hbelow⟩ :=
    below_root_iff (job_spare true) rfl (show Ready (spareJob true) styledFiles from testedReady)
      sound_styledFiles (fun _ => none) fun _ _ => false
  obtain rfl := testedReady.works_eq_of_single found_tested (hcalm fun _ _ => rfl) hworks
  have hdirs : ∀ dir ∈ (spareJob true).componentDirs, ¬ Discovery.LeadsUp (spareJob true) dir :=
    fun dir hdir => absurd hdir List.not_mem_nil
  obtain ⟨-, hpaths, -⟩ := testedWork_check
  rw [← hroot]
  exact ⟨job_spare true, sound_styledFiles, _, out, hpaths, hrun, hfiles, hbelow hdirs⟩

/-! ## A directory that leads out of the project -/

/-- A configuration that has components looked for in the target project. -/
def strayText : String := "discovery.component_dirs=[\"../target\"]"

/-- The disk with the configuration. -/
def strayConfig : Disk where
  top := .directory [("component_migrator.toml", .file (Utf8.encode strayText))]

/-- The job with the configuration. -/
def strayJob : Job := { spareJob false with componentDirs := ["../target"] }

theorem job_stray : (spare false).job strayConfig = .ok strayJob := by
  have htext : strayConfig.readText (Path.here.child ConfigFile.defaultName) = .ok strayText := by
    refine World.unchanged_iff (w := { files := strayConfig }).mp ?_
    decide
  have hparse : Toml.parse strayText =
      .ok [("discovery", .table [("component_dirs", .list [.text "../target"])])] := by cbv
  have hload : ConfigFile.load strayConfig none Path.here =
      .ok (Table.ofPairs [("discovery", .table [("component_dirs", .list [.text "../target"])])]) := by
    rw [ConfigFile.load, Option.getD_none, htext]
    dsimp only
    rw [hparse]
  have hfile : (spare false).requests.configFile = .ok none := rfl
  simp only [CommandLine.Arguments.job, hfile, hload, bind, Except.bind]
  rfl

/-- As it is written, the directory is in the project. -/
theorem inside_stray : ∀ dir ∈ strayJob.componentDirs, Discovery.Inside strayJob dir := by
  intro dir hdir
  rw [List.mem_singleton.mp hdir]
  exact Discovery.inside_of_relative (by decide)

/-- A disk with a component in the target project. -/
def strayFiles : Disk where
  top := .directory [("source", .empty),
    ("target", .directory [("W.jsx", .file (Utf8.encode (bare "W")))])]

/-- The job can begin. -/
def strayReady : Ready strayJob strayFiles where
  events := { file := "" }
  settings := strayJob.settings
  frameworkLog := _
  aliasLog := _
  roots := by rfl
  inside := Discovery.stray?_of_inside strayFiles inside_stray
  framework := by rfl
  aliases := by rfl

theorem found_stray : strayReady.found = ["../target/W.jsx"] := by decide +kernel

/-- The work on the component. -/
def strayWork : Work := Work.process strayReady.batch strayJob strayFiles "../target/W.jsx"

/-- Where the component goes. -/
def strayPlace : Path :=
  ⟨"", ["target", "src", "components_migrated_from_source", "..", "target", "W.jsx"]⟩

theorem stray_check :
    (World.passed strayReady.batch strayJob (fun _ => none) strayReady.opening [strayWork]).map
      (·.1) = [strayPlace] ∧
    (World.commit strayReady.batch strayJob (fun _ => none) strayReady.opening
      strayWork).report.migrated = 1 ∧
    ((World.commit strayReady.batch strayJob (fun _ => none) strayReady.opening
      strayWork).files.top.get? ["target", "src", "target", "W.jsx"]).isSome = true := by
  decide +kernel

/-- **A component is written beside the directory of the job.**  The job is configured without paths
for single files, and the run tells the component as migrated. -/
theorem written_outside :
    (spare false).job strayConfig = .ok strayJob ∧ strayJob.settings.pathOverrides = Table.empty ∧
    ∃ out, run strayJob (fun _ => none) (fun _ _ => false) strayFiles = .ok out ∧
      out.report.migrated = 1 ∧
      (World.passed strayReady.batch strayJob (fun _ => none) strayReady.opening
        [strayWork]).map (·.1) = [strayPlace] ∧
      ¬ strayPlace.Below strayJob.root ∧
      (out.files.top.get? ["target", "src", "target", "W.jsx"]).isSome = true := by
  obtain ⟨hpassed, hmigrated, hfile⟩ := stray_check
  have hclosing : (strayReady.closing (fun _ => none) fun _ _ => false) =
      World.commit strayReady.batch strayJob (fun _ => none) strayReady.opening strayWork :=
    strayReady.closing_of_single _ found_stray fun _ _ => rfl
  rw [← hclosing, ← Ready.report_outcome] at hmigrated
  rw [← hclosing, ← Ready.files_outcome] at hfile
  refine ⟨job_stray, rfl, _, strayReady.run_eq _ _, hmigrated, hpassed, ?_, hfile⟩
  rintro ⟨names, -, -, hnormal⟩
  have hplace : strayPlace.normal = ⟨"", ["target", "src", "target", "W.jsx"]⟩ := by decide
  have hroot : strayJob.root.normal = ⟨"", ["target", "src", "components_migrated_from_source"]⟩ := by
    decide
  rw [hplace, hroot, Path.mk.injEq] at hnormal
  simp at hnormal

end Migration
end Transplant
