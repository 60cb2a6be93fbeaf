import Transplant.Proofs.Grammar.ComponentNames
import Transplant.Proofs.Migration.Accounting
import Transplant.Proofs.Migration.Delivery
import Transplant.Proofs.Migration.Found
import Transplant.Proofs.Plan.Outputs

/-!
# What gets in each other's way

A run leaves components, tests and style files behind.  Components are put to the registry, which
keeps their names and their paths apart.  Tests are kept apart by the names of their components.
Style files are put to no registry: each goes where its own path and the new names lead, and nobody
asks whether another one goes there too.

This file says of a whole run, in which no paths are given for single files, which of the files of
its products can meet: only style files of one directory with one ending, whose stems get one name.
`stem_shared_by_styles` is a run in which two of them do, and one is lost without a word.

## The argument

Along a run the registry knows the plans that have been accepted (`Registry.Knows`), since the files
that were found are distinct.  That settles components among themselves, and tests among themselves, as
no slash stands in the name of a component (`Site.slash_notMem_name`).  All else is a matter of the
last component of a path, which is dealt with in `Batch.newName_ne_style`, `Batch.newName_ne_test` and
`Batch.newPlace_eq_iff`.

* `World.accepted`, `World.pairwise_accepted`: the products that a registry takes up, and what it
  keeps apart of them
* `Product.placed`: the files of a product with what they are made of
* `Migration.files_meet_iff`: which files of a run meet
-/

namespace Transplant

open Schedule

/-! ## Files that have been found -/

namespace Discovery

variable {files : Disk} {j : Job}

/-- What is found in a project is a file with a name that was wanted, below the project: the project
itself is a directory. -/
theorem found_of_mem_search? (hsound : files.top.Sound)
    (hroot : files.isDirectoryAt j.sourceDir = true) {wanted : String → Bool}
    {dir source : String} (h : source ∈ (search? files j wanted dir).getD []) :
    Found wanted source := by
  obtain ⟨entries, place, content, -, -, hne, hnames, hwanted, hway⟩ :=
    mem_search?_cases hsound h
  have hrelative := (way_eq_ok_iff.mp hway).1
  have hparts : (Path.ofString source).parts ≠ [] := by
    intro hnil
    obtain ⟨bytes, hbytes⟩ := readBytes_of_mem_search? hsound h
    rw [Path.child, Path.append_of_relative hrelative, hnil, List.append_nil] at hbytes
    have hfile := (Disk.readBytes_eq_ok_iff.mp hbytes).2
    rw [(Disk.isDirectoryAt_iff.mp hroot).2] at hfile
    cases hfile
  have hname : (Path.ofString source).name = place.getLast hne := by
    obtain ⟨front, hfront⟩ := parts_way hway
    have hlast := congrArg List.getLast? hfront
    rw [List.getLast?_append_of_ne_nil _ hparts, List.getLast?_append_of_ne_nil _ hne,
      List.getLast?_eq_some_getLast hne] at hlast
    rw [Path.name, hlast, Option.getD_some]
  have hlast : place.getLast?.getD "" = place.getLast hne := by
    rw [List.getLast?_eq_some_getLast hne, Option.getD_some]
  refine ⟨hrelative, ?_, ?_⟩
  · rw [hname]
    exact (hnames _ (List.getLast_mem hne)).1.ne_empty
  · rwa [hname, ← hlast]

theorem found_of_mem_components (hsound : files.top.Sound)
    (hroot : files.isDirectoryAt j.sourceDir = true) {source : String}
    (h : source ∈ (components files j).1) : Found isComponent source := by
  obtain ⟨dir, -, hsource⟩ := exists_root_of_mem_components h
  exact found_of_mem_search? hsound hroot hsource

theorem found_of_mem_styles (hsound : files.top.Sound)
    (hroot : files.isDirectoryAt j.sourceDir = true) {source : String}
    (h : source ∈ styles files j) : Found isStyle source :=
  found_of_mem_search? hsound hroot (List.mem_mergeSort.mp h)

end Discovery

open Discovery (Found isComponent isStyle)

/-! ## Settings that have been checked -/

/-- Checked settings give identifiers for new names. -/
theorem Settings.isIdentifier_of_validate {s s' : Settings} (h : s.validate = .ok s')
    {old new : String} (hget : s.renames.get? old = some new) : Text.isIdentifier new = true := by
  cases hfind : s.renames.entries.findSome? badRename? with
  | none =>
    have hentry := List.findSome?_eq_none_iff.mp hfind (old, new) (Table.mem_entries_iff.mpr hget)
    rw [badRename?, Option.map_eq_none_iff, List.find?_eq_none] at hentry
    simpa using hentry new (by simp)
  | some e =>
    -- whatever the other checks come to, this one stops
    exfalso
    unfold validate at h
    rw [hfind] at h
    generalize isOneOf s.defaultStyle styles = style at h
    generalize isOneOf s.mismatch strategies = mismatch at h
    generalize checkSuffix s.suffix = suffix at h
    cases style <;> cases mismatch <;> cases suffix <;> cases h

/-- The aliases of the two projects change neither the new names nor the paths of single files. -/
theorem Migration.settings_cases {j : Job} {files : Disk} {s : Settings} {log : List LogLine}
    (h : Migration.settings j files = .ok (s, log)) :
    s.renames = j.settings.renames ∧ s.pathOverrides = j.settings.pathOverrides := by
  obtain ⟨source, -, h⟩ := exists_of_bind h
  obtain ⟨target, -, h⟩ := exists_of_bind h
  dsimp only at h
  split at h
  · obtain ⟨rfl, -⟩ := Prod.mk.inj (Except.ok.inj h)
    exact ⟨rfl, rfl⟩
  · obtain ⟨rfl, -⟩ := Prod.mk.inj (Except.ok.inj h)
    exact ⟨rfl, rfl⟩

/-! ## Products that are accepted -/

namespace World

/-- The products of some work that a registry takes up, one after the other. -/
def accepted (r : Registry) : List Work → List Product
  | [] => []
  | x :: rest => (admitted? r x).toList ++ accepted (enrol r x) rest

theorem exists_of_mem_accepted {r : Registry} {works : List Work} {p : Product}
    (h : p ∈ accepted r works) : ∃ x ∈ works, x.product = some p := by
  induction works generalizing r with
  | nil => cases h
  | cons x rest ih =>
    rcases List.mem_append.mp h with h | h
    · exact ⟨x, List.mem_cons_self, product_of_admitted? (Option.mem_toList.mp h)⟩
    · obtain ⟨y, hy, hp⟩ := ih h
      exact ⟨y, List.mem_cons_of_mem _ hy, hp⟩

/-- What the registry keeps apart: names, and paths unless the later one was given. -/
def Apart (p q : Plan) : Prop :=
  p.targetName ≠ q.targetName ∧ (p.targetPath = q.targetPath → q.pathOverridden = true)

/-- The run: of work on different sources, a registry keeps apart the products that it takes up,
from each other and from what it knows. -/
theorem pairwise_accepted {works : List Work} {r : Registry} {before : List Plan}
    (hknows : r.Knows before) (hbefore : before.Pairwise Apart)
    (hown : ∀ x ∈ works, ∀ p, x.product = some p → p.plan.descriptor.sourcePath = x.source)
    (hsources : (before.map (·.descriptor.sourcePath) ++ works.map (·.source)).Nodup) :
    (before ++ (accepted r works).map (·.plan)).Pairwise Apart := by
  induction works generalizing r before with
  | nil => simpa [accepted] using hbefore
  | cons x rest ih =>
    have hrest : ∀ y ∈ rest, ∀ p, y.product = some p → p.plan.descriptor.sourcePath = y.source :=
      fun y hy => hown y (List.mem_cons_of_mem _ hy)
    cases hadmitted : admitted? r x with
    | none =>
      rw [accepted, enrol, hadmitted]
      exact ih hknows hbefore hrest
        (hsources.sublist (List.Sublist.append_left (List.sublist_cons_self _ _) _))
    | some p =>
      obtain ⟨hproduct, hfree⟩ := Option.filter_eq_some_iff.mp hadmitted
      rw [Option.isNone_iff_eq_none] at hfree
      have hsource := hown x List.mem_cons_self p hproduct
      have hnew : ∀ q ∈ before, q.descriptor.sourcePath ≠ p.plan.descriptor.sourcePath := by
        intro q hq hsame
        have hdisjoint := (List.nodup_append.mp hsources).2.2
        exact hdisjoint _ (List.mem_map_of_mem hq) _ List.mem_cons_self (hsame.trans hsource)
      have hnext : (before ++ [p.plan]).Pairwise Apart := by
        refine List.pairwise_append.mpr ⟨hbefore, List.pairwise_singleton _ _, ?_⟩
        intro q hq p' hp'
        obtain rfl := List.mem_singleton.mp hp'
        exact hknows.apart hfree hnew q hq
      have hsources' : ((before ++ [p.plan]).map (·.descriptor.sourcePath) ++
          rest.map (·.source)).Nodup := by
        rw [List.map_append, List.map_singleton, hsource, List.append_assoc]
        exact hsources
      have hall := ih (hknows.accept hfree hnew) hnext hrest hsources'
      rw [accepted, enrol, hadmitted]
      simpa [List.append_assoc] using hall

/-- What is passed to the writer belongs to products that are accepted. -/
theorem exists_accepted_of_mem_passed {b : Batch} {j : Job} {faults : Faults} {works : List Work}
    {w : World} {e : Path × String} (h : e ∈ passed b j faults w works) :
    ∃ p ∈ accepted w.registry works, e ∈ p.files b := by
  induction works generalizing w with
  | nil => cases h
  | cons x rest ih =>
    rcases List.mem_append.mp h with h | h
    · obtain ⟨p, hp, he⟩ := exists_of_mem_handed b j (mem_handed_of_mem_passedBy b j faults h)
      exact ⟨p, List.mem_append_left _ (Option.mem_toList.mpr hp), he⟩
    · obtain ⟨p, hp, he⟩ := ih h
      rw [registry_commit] at hp
      exact ⟨p, List.mem_append_right _ hp, he⟩

end World

/-! ## Files of products -/

/-- What a file that is left behind is made of. -/
inductive Origin where
  | component (source : String)
  | test (source : String)
  | style (asset : String)
deriving DecidableEq

/-- The paths of the files of a product, each with what the file is made of. -/
def Product.placed (b : Batch) (p : Product) : List (Origin × Path) :=
  (.component p.plan.descriptor.sourcePath, p.plan.targetPath) ::
    ((p.test.map fun _ => (.test p.plan.descriptor.sourcePath, b.testPath p.plan)).toList ++
      (p.plan.assets.zip p.assets).map fun e => (.style e.1, e.2.1))

/-- A product of a run in which no paths are given: the component and the style files go to their
own directories under new names. -/
structure Product.Regular (b : Batch) (source : String) (p : Product) : Prop where
  sourcePath : p.plan.descriptor.sourcePath = source
  targetPath : p.plan.targetPath = b.root ++ b.newPlace source (some p.plan.descriptor.name)
  given : p.plan.pathOverridden = false
  slash : '/' ∉ p.plan.descriptor.name.toList
  targetName : p.plan.targetName = p.plan.descriptor.name ∨
    Text.isIdentifier p.plan.targetName = true
  styles : List.Forall₂ (fun asset e => asset ∈ b.assets ∧ e.1 = b.root ++ b.newPlace asset none)
    p.plan.assets p.assets

namespace Work

variable {b : Batch} {j : Job} {files : Disk} {source : String}

theorem source_process (b : Batch) (j : Job) (files : Disk) (source : String) :
    (process b j files source).source = source := by
  unfold process
  split
  · rfl
  · dsimp only
    split
    · rfl
    · split <;> rfl

/-- A file is described by its path and by a name without slashes. -/
theorem names_of_analyse {parsed : Source} {d : Descriptor}
    (h : analyse j files source = .ok (parsed, d)) :
    d.sourcePath = source ∧ '/' ∉ d.name.toList := by
  obtain ⟨text, -, h⟩ := exists_of_bind h
  obtain ⟨s, hs, h⟩ := exists_of_bind h
  obtain ⟨d', hd, h⟩ := exists_of_bind h
  obtain ⟨-, rfl⟩ := Prod.mk.inj (Except.ok.inj h)
  obtain ⟨site, hsite, hpath, hname, -⟩ := Descriptor.exists_site (ok_of_mapError hd)
  rw [hname]
  exact ⟨hpath, Site.slash_notMem_name (Source.clean_root (ok_of_mapError hs)) hsite⟩

theorem regular_process (h : b.RenamesToIdentifiers)
    (hpaths : ∀ s, b.naming.pathOverrides.get? s = none) {p : Product}
    (hp : (process b j files source).product = some p) : p.Regular b source := by
  obtain ⟨hnone, -⟩ |
      ⟨parsed, d, draft, text, assets, test, hanalyse, hadapt, hassets, -, hproduct⟩ :=
    process_cases b j files source
  · rw [hnone] at hp
    cases hp
  obtain rfl := Option.some.inj (hproduct.symm.trans hp)
  have hadapt := adapt_cases hadapt
  have hnew : ∀ {s : String} {component : Option String} {place : Path} {given : Bool},
      b.targetOf s component = .ok (place, given) →
        place = b.newPlace s component ∧ given = false := by
    intro s component place given hplace
    obtain ⟨text, hgiven, -⟩ | ⟨-, hname, -⟩ := Batch.targetOf_cases h hplace
    · rw [hpaths] at hgiven
      cases hgiven
    · rw [Batch.targetOf_of_none h component (hpaths s) hname] at hplace
      obtain ⟨rfl, rfl⟩ := Prod.mk.inj (Except.ok.inj hplace)
      exact ⟨rfl, rfl⟩
  obtain ⟨plan, hplan, hlasting⟩ := Batch.adapt_lasting hadapt
  obtain ⟨place, given, hplace, rfl⟩ := Batch.plan_eq_planAt hplan
  obtain ⟨rfl, rfl⟩ := hnew hplace
  obtain ⟨hown, hslash⟩ := names_of_analyse hanalyse
  -- none of this is changed by warnings and notes
  obtain ⟨hdescriptor, htarget, hgiven, hrenames⟩ := hlasting
    (fun q => q.descriptor = d ∧ q.targetPath = b.root ++ b.newPlace d.sourcePath (some d.name) ∧
      q.pathOverridden = false ∧ q.renames = b.renamesOf d)
    ⟨fun _ _ hq => hq, fun _ _ _ hq => hq⟩ ⟨rfl, rfl, rfl, rfl⟩
  refine ⟨?_, ?_, hgiven, ?_, ?_, ?_⟩
  · rw [hdescriptor, hown]
  · rw [htarget, hdescriptor, hown]
  · rwa [hdescriptor]
  · have hname : draft.plan.targetName =
        (b.planAt d (b.newPlace d.sourcePath (some d.name)) false).targetName := by
      rw [Plan.targetName, hdescriptor, hrenames]
      rfl
    rw [hname, hdescriptor]
    exact Batch.targetName_cases h d _ false
  · refine (List.forall₂_and_left _ _).mpr ⟨(Batch.adapt_keeps hadapt).2, ?_⟩
    refine (forall₂_of_mapM hassets).imp fun asset e hcopy => ?_
    obtain ⟨place, given, hplace, hpath⟩ := Batch.assetPath_cases (copy_cases hcopy).2
    rw [hpath, (hnew hplace).1]

end Work

namespace Product

variable {b : Batch} {p q : Product} {source source' : String} {o o' : Origin × Path}

/-- What a file of a product is, and where it goes. -/
theorem Regular.mem_placed (hp : p.Regular b source) (ho : o ∈ p.placed b) :
    o = (.component source, p.plan.targetPath) ∨ o = (.test source, b.testPath p.plan) ∨
      ∃ asset ∈ b.assets, o = (.style asset, b.root ++ b.newPlace asset none) := by
  rw [placed, hp.sourcePath] at ho
  rcases List.mem_cons.mp ho with rfl | ho
  · exact Or.inl rfl
  rcases List.mem_append.mp ho with ho | ho
  · rw [Option.mem_toList, Option.map_eq_some_iff] at ho
    obtain ⟨test, -, rfl⟩ := ho
    exact Or.inr (Or.inl rfl)
  · obtain ⟨⟨asset, e⟩, hzip, rfl⟩ := List.mem_map.mp ho
    obtain ⟨hasset, hpath⟩ := List.forall₂_zip hp.styles hzip
    exact Or.inr (Or.inr ⟨asset, hasset, by rw [hpath]⟩)

/-- The paths of the files of a product are those that are handed to the writer. -/
theorem Regular.map_placed (hp : p.Regular b source) :
    (p.placed b).map (·.2) = (p.files b).map (·.1) := by
  have hstyles : (p.plan.assets.zip p.assets).map Prod.snd = p.assets :=
    List.map_snd_zip hp.styles.length_eq.ge
  have hpaths : ((p.plan.assets.zip p.assets).map fun e => e.2.1) = p.assets.map (·.1) := by
    conv_rhs => rw [← hstyles, List.map_map]
    rfl
  unfold placed files World.extras
  cases p.test <;> simpa [Function.comp_def] using hpaths

theorem Regular.name_targetPath (hp : p.Regular b source) :
    p.plan.targetPath.name = b.newName source (some p.plan.descriptor.name) := by
  rw [hp.targetPath, Path.name_append (by simp [Batch.newPlace]), Batch.name_newPlace]

/-- No slash stands in the new name of a component. -/
theorem Regular.slash_targetName (hp : p.Regular b source) : '/' ∉ p.plan.targetName.toList := by
  rcases hp.targetName with hsame | hident
  · rw [hsame]
    exact hp.slash
  · exact (Text.chars_of_isIdentifier hident).2.2

/-- The name of a test: that of its component, `.test`, and the ending of the source. -/
theorem Regular.name_testPath (h : b.RenamesToIdentifiers) (hp : p.Regular b source)
    (hsource : Found isComponent source) :
    (b.testPath p.plan).name = p.plan.targetName ++ ".test" ++ (Path.ofString source).suffix := by
  have hending := hsource.ending.1
  have hsuffix : p.plan.targetPath.suffix = (Path.ofString source).suffix :=
    (Path.stem_suffix_of_name hending (Batch.newStem_ne_empty_of_suffix h _ hending.ne_empty)
      hp.name_targetPath).2
  have htarget : '/' ∉ p.plan.targetPath.name.toList := by
    rw [hp.name_targetPath]
    exact (Batch.newName_component h _ hsource.name).2.2
  have hkept : p.plan.targetPath.suffix ≠ "" := by
    rw [hsuffix]
    exact hending.ne_empty
  obtain ⟨ending, hsame, hpath⟩ := Batch.testPath_eq (b := b) hp.slash_targetName htarget
  rw [hpath, Path.name_concat, hsame hkept, hsuffix]

/-- A component and a test are scripts, and no style file has the name of a script. -/
theorem Regular.ne_style (h : b.RenamesToIdentifiers) (hp : p.Regular b source)
    (hsource : Found isComponent source) {asset : String} (hasset : Found isStyle asset) :
    p.plan.targetPath ≠ b.root ++ b.newPlace asset none ∧
      b.testPath p.plan ≠ b.root ++ b.newPlace asset none := by
  obtain ⟨hending, hknown⟩ := hsource.ending
  have hstyle : (b.root ++ b.newPlace asset none).name = b.newName asset none := by
    rw [Path.name_append (by simp [Batch.newPlace]), Batch.name_newPlace]
  constructor <;> intro hsame <;> have hname := congrArg Path.name hsame
  · rw [hp.name_targetPath, hstyle] at hname
    exact Batch.newName_ne_style h hasset
      (Batch.newStem_ne_empty_of_suffix h _ hending.ne_empty) hending hknown hname
  · rw [hp.name_testPath h hsource, hstyle] at hname
    refine Batch.newName_ne_style h hasset ?_ hending hknown hname
    simp

/-- No component goes where a test goes. -/
theorem Regular.ne_test (h : b.RenamesToIdentifiers) (hp : p.Regular b source)
    (hsource : Found isComponent source) (hq : q.Regular b source')
    (hsource' : Found isComponent source') : p.plan.targetPath ≠ b.testPath q.plan := by
  intro hsame
  have hname := congrArg Path.name hsame
  rw [hp.name_targetPath, hq.name_testPath h hsource'] at hname
  exact Batch.newName_ne_test h hsource _ _ hsource'.ending.1 hname

/-- Tests of components with different names are different files. -/
theorem Regular.testPath_ne (h : b.RenamesToIdentifiers) (hp : p.Regular b source)
    (hsource : Found isComponent source) (hq : q.Regular b source')
    (hsource' : Found isComponent source') (hne : p.plan.targetName ≠ q.plan.targetName) :
    b.testPath p.plan ≠ b.testPath q.plan := by
  intro hsame
  have hname := congrArg Path.name hsame
  rw [hp.name_testPath h hsource, hq.name_testPath h hsource',
    Path.append_ending_inj hsource.ending.1 hsource'.ending.1, String.append_left_inj] at hname
  exact hne hname.1

/-- Which files of two products meet, if the products themselves are apart. -/
theorem Regular.meet_iff (h : b.RenamesToIdentifiers)
    (hstyles : ∀ asset ∈ b.assets, Found isStyle asset) (hp : p.Regular b source)
    (hsource : Found isComponent source) (hq : q.Regular b source')
    (hsource' : Found isComponent source')
    (hapart : source ≠ source' →
      p.plan.targetName ≠ q.plan.targetName ∧ p.plan.targetPath ≠ q.plan.targetPath)
    (ho : o ∈ p.placed b) (ho' : o' ∈ q.placed b) (hne : o.1 ≠ o'.1) :
    o.2 = o'.2 ↔ ∃ a a', o.1 = .style a ∧ o'.1 = .style a' ∧ b.Converging a a' := by
  obtain rfl | rfl | ⟨a, ha, rfl⟩ := hp.mem_placed ho
  · refine iff_of_false ?_ (by simp)
    obtain rfl | rfl | ⟨a', ha', rfl⟩ := hq.mem_placed ho'
    · exact (hapart fun hsame => hne (by rw [hsame])).2
    · exact hp.ne_test h hsource hq hsource'
    · exact (hp.ne_style h hsource (hstyles a' ha')).1
  · refine iff_of_false ?_ (by simp)
    obtain rfl | rfl | ⟨a', ha', rfl⟩ := hq.mem_placed ho'
    · exact (hq.ne_test h hsource' hp hsource).symm
    · exact hp.testPath_ne h hsource hq hsource'
        (hapart fun hsame => hne (by rw [hsame])).1
    · exact (hp.ne_style h hsource (hstyles a' ha')).2
  · obtain rfl | rfl | ⟨a', ha', rfl⟩ := hq.mem_placed ho'
    · exact iff_of_false (hq.ne_style h hsource' (hstyles a ha)).1.symm (by simp)
    · exact iff_of_false (hq.ne_style h hsource' (hstyles a ha)).2.symm (by simp)
    · have hcancel : b.root ++ b.newPlace a none = b.root ++ b.newPlace a' none ↔
          b.newPlace a none = b.newPlace a' none := by
        refine ⟨fun hsame => ?_, fun hsame => by rw [hsame]⟩
        have hroot : (b.newPlace a none).root = "" := (hstyles a ha).root
        have hroot' : (b.newPlace a' none).root = "" := (hstyles a' ha').root
        rw [Path.append_of_relative hroot, Path.append_of_relative hroot', Path.mk.injEq] at hsame
        rw [Path.mk.injEq]
        exact ⟨hroot.trans hroot'.symm, List.append_cancel_left hsame.2⟩
      rw [hcancel, Batch.newPlace_eq_iff h (hstyles a ha) (hstyles a' ha')]
      simp

end Product

/-! ## Runs -/

namespace Migration

namespace Ready

variable {j : Job} {files : Disk} (g : Ready j files)

theorem renamesToIdentifiers {s : Settings} (hvalid : j.settings.validate = .ok s) :
    g.batch.RenamesToIdentifiers := by
  intro old new hget
  have hsame : g.batch.naming.renames = j.settings.renames := (settings_cases g.aliases).1
  rw [hsame] at hget
  exact Settings.isIdentifier_of_validate hvalid hget

theorem get?_pathOverrides (hpaths : j.settings.pathOverrides = Table.empty) (source : String) :
    g.batch.naming.pathOverrides.get? source = none := by
  have hsame : g.batch.naming.pathOverrides = j.settings.pathOverrides :=
    (settings_cases g.aliases).2
  rw [hsame, hpaths]
  rfl

variable {faults : Faults} {calledOff : Nat → World → Bool} {k : Nat} {works : List Work}
  {p q : Product}

/-- The work of a run is on the files that it has found, in order. -/
theorem map_source_works
    (hworks : Worked (g.schedule faults calledOff) g.opening (g.found.take k) works) :
    works.map (·.source) = g.found.take k := by
  have hsources : List.Forall₂ (fun source x => source = x.source) (g.found.take k) works := by
    refine hworks.forall₂.imp ?_
    rintro source x ⟨w, rfl⟩
    exact (Work.source_process g.batch j w.files source).symm
  rw [← List.forall₂_map_right_iff, List.forall₂_eq_eq_eq] at hsources
  exact hsources.symm

/-- Where no paths are given, the products of a run are regular. -/
theorem regular_of_mem_works (h : g.batch.RenamesToIdentifiers)
    (hpaths : ∀ source, g.batch.naming.pathOverrides.get? source = none)
    (hworks : Worked (g.schedule faults calledOff) g.opening (g.found.take k) works)
    {x : Work} (hx : x ∈ works) (hp : x.product = some p) :
    x.source ∈ g.found ∧ p.Regular g.batch x.source := by
  obtain ⟨source, hsource, w, rfl⟩ := exists_mem_of_forall₂ hworks.forall₂ hx
  rw [show ((g.schedule faults calledOff).work w source).source = source from
    Work.source_process g.batch j w.files source]
  exact ⟨List.mem_of_mem_take hsource, Work.regular_process h hpaths hp⟩

/-- What the registry takes up along a run comes of files that have been found. -/
theorem regular_of_mem_accepted (hvalid : j.settings.validate = .ok j.settings)
    (hpaths : j.settings.pathOverrides = Table.empty)
    (hworks : Worked (g.schedule faults calledOff) g.opening (g.found.take k) works)
    (hp : p ∈ World.accepted Registry.empty works) :
    p.plan.descriptor.sourcePath ∈ g.found ∧
      p.Regular g.batch p.plan.descriptor.sourcePath := by
  obtain ⟨x, hx, hproduct⟩ := World.exists_of_mem_accepted hp
  obtain ⟨hfound, hregular⟩ := g.regular_of_mem_works (g.renamesToIdentifiers hvalid)
    (g.get?_pathOverrides hpaths) hworks hx hproduct
  rw [hregular.sourcePath]
  exact ⟨hfound, hregular⟩

/-- What is passed to the writer is a file of a product that the registry takes up. -/
theorem exists_placed_of_mem_passed (hvalid : j.settings.validate = .ok j.settings)
    (hpaths : j.settings.pathOverrides = Table.empty)
    (hworks : Worked (g.schedule faults calledOff) g.opening (g.found.take k) works)
    {e : Path × String} (he : e ∈ World.passed g.batch j faults g.opening works) :
    ∃ p ∈ World.accepted Registry.empty works, ∃ o ∈ p.placed g.batch, o.2 = e.1 := by
  obtain ⟨p, hp, hmem⟩ := World.exists_accepted_of_mem_passed he
  obtain ⟨-, hregular⟩ := g.regular_of_mem_accepted hvalid hpaths hworks hp
  have hpath : e.1 ∈ (p.placed g.batch).map (·.2) := by
    rw [hregular.map_placed]
    exact List.mem_map_of_mem hmem
  exact ⟨p, hp, List.mem_map.mp hpath⟩

/-- The registry keeps the components of a run apart. -/
theorem accepted_apart (hvalid : j.settings.validate = .ok j.settings)
    (hpaths : j.settings.pathOverrides = Table.empty)
    (hworks : Worked (g.schedule faults calledOff) g.opening (g.found.take k) works)
    (hp : p ∈ World.accepted Registry.empty works) (hq : q ∈ World.accepted Registry.empty works)
    (hne : p.plan.descriptor.sourcePath ≠ q.plan.descriptor.sourcePath) :
    p.plan.targetName ≠ q.plan.targetName ∧ p.plan.targetPath ≠ q.plan.targetPath := by
  have hnodup : (works.map (·.source)).Nodup := by
    rw [g.map_source_works hworks]
    exact (Discovery.nodup_components files j).sublist (List.take_sublist _ _)
  have hall : ((World.accepted Registry.empty works).map (·.plan)).Pairwise World.Apart := by
    refine World.pairwise_accepted Registry.knows_empty .nil (fun x hx p hp => ?_) hnodup
    exact (g.regular_of_mem_works (g.renamesToIdentifiers hvalid) (g.get?_pathOverrides hpaths)
      hworks hx hp).2.sourcePath
  -- no paths are given, so what is kept apart is symmetric
  have hsymmetric : ((World.accepted Registry.empty works).map (·.plan)).Pairwise fun p q =>
      p.targetName ≠ q.targetName ∧ p.targetPath ≠ q.targetPath := by
    refine hall.imp_of_mem fun _ hb hapart => ⟨hapart.1, fun hsame => ?_⟩
    obtain ⟨r, hr, rfl⟩ := List.mem_map.mp hb
    have hgiven := (g.regular_of_mem_accepted hvalid hpaths hworks hr).2.given
    rw [hapart.2 hsame] at hgiven
    cases hgiven
  have : Std.Symm fun p q : Plan => p.targetName ≠ q.targetName ∧ p.targetPath ≠ q.targetPath :=
    ⟨fun _ _ hapart => ⟨hapart.1.symm, hapart.2.symm⟩⟩
  refine hsymmetric.forall (List.mem_map_of_mem hp) (List.mem_map_of_mem hq) fun hsame => hne ?_
  rw [hsame]

end Ready

/-- **Which files of a run meet.**  In a migration that can begin, with checked settings and without
paths for single files, the writer is called for the files of the products that the registry takes
up.  Of these, two that are made of different files go to one path if and only if both are style
files, in one directory and with one ending, whose stems get one name.  Components and tests meet
nothing. -/
theorem files_meet_iff {j : Job} {files : Disk} (g : Ready j files) (hsound : files.top.Sound)
    (hvalid : j.settings.validate = .ok j.settings)
    (hpaths : j.settings.pathOverrides = Table.empty) (faults : Faults)
    (calledOff : Nat → World → Bool) :
    ∃ k ≤ g.found.length, ∃ works out,
      Worked (g.schedule faults calledOff) g.opening (g.found.take k) works ∧
      ((∀ n w, calledOff n w = false) → k = g.found.length) ∧
      run j faults calledOff files = .ok out ∧
      out.files = (World.passed g.batch j faults g.opening works).foldl (Disk.send faults) files ∧
      (∀ e ∈ World.passed g.batch j faults g.opening works,
        ∃ p ∈ World.accepted Registry.empty works, ∃ o ∈ p.placed g.batch, o.2 = e.1) ∧
      ∀ p ∈ World.accepted Registry.empty works, ∀ q ∈ World.accepted Registry.empty works,
        ∀ o ∈ p.placed g.batch, ∀ o' ∈ q.placed g.batch, o.1 ≠ o'.1 →
          (o.2 = o'.2 ↔ ∃ a a', o.1 = .style a ∧ o'.1 = .style a' ∧
            g.batch.Converging a a') := by
  have hroot := (checkRoots_iff.mp g.roots).1
  obtain ⟨k, hk, works, hworks, hfiles, hcalm⟩ := g.exists_worked faults calledOff
  refine ⟨k, hk, works, _, hworks, hcalm, g.run_eq faults calledOff, hfiles,
    fun e he => g.exists_placed_of_mem_passed hvalid hpaths hworks he,
    fun p hp q hq o ho o' ho' hne => ?_⟩
  obtain ⟨hsource, hregular⟩ := g.regular_of_mem_accepted hvalid hpaths hworks hp
  obtain ⟨hsource', hregular'⟩ := g.regular_of_mem_accepted hvalid hpaths hworks hq
  exact hregular.meet_iff (g.renamesToIdentifiers hvalid)
    (fun asset hasset => Discovery.found_of_mem_styles hsound hroot hasset)
    (Discovery.found_of_mem_components hsound hroot hsource) hregular'
    (Discovery.found_of_mem_components hsound hroot hsource')
    (g.accepted_apart hvalid hpaths hworks hp hq) ho ho' hne

/-! ## Two style files and one name -/

/-- A disk with a component that imports two style files, and an empty target project. -/
def twoStylesFiles : Disk where
  top := .directory
    [("source", .directory
      [("A.jsx", .file (Utf8.encode ("import './b.css';\nimport './c.css';\n" ++ bare "A"))),
        ("b.css", .file (Utf8.encode "i{}")), ("c.css", .file (Utf8.encode "p{}"))]),
      ("target", .directory [])]

theorem sound_twoStylesFiles : twoStylesFiles.top.Sound := by
  have hproper : ∀ {name : String}, Lexical.Named name ∧ '/' ∉ name.toList →
      FileTree.Proper name := id
  refine FileTree.sound_directory (by decide) ?_
  simp only [List.forall_mem_cons, List.not_mem_nil, false_implies, implies_true, and_true]
  refine ⟨⟨hproper (by decide), FileTree.sound_directory (by decide) ?_⟩, hproper (by decide),
    FileTree.sound_directory .nil nofun⟩
  simp only [List.forall_mem_cons, List.not_mem_nil, false_implies, implies_true, and_true,
    FileTree.sound_file]
  exact ⟨hproper (by decide), hproper (by decide), hproper (by decide)⟩

/-- A job that gives the name of the second style file to the first. -/
def twoStyles : Job :=
  { lone with settings := { header := false, renames := Table.ofPairs [("b", "c")] } }

/-- The job can begin. -/
def twoStylesReady : Ready twoStyles twoStylesFiles where
  events := { file := "" }
  settings := twoStyles.settings
  frameworkLog := _
  aliasLog := _
  roots := by rfl
  inside := Discovery.stray?_of_nil twoStylesFiles rfl
  framework := by rfl
  aliases := by rfl

theorem found_twoStyles : twoStylesReady.found = ["A.jsx"] := by decide +kernel

/-- The batch of the job. -/
def twoStylesBatch : Batch where
  naming := twoStyles.settings.naming
  targetDir := ⟨"", ["target"]⟩
  files := ["A.jsx"]
  assets := ["b.css", "c.css"]

theorem batch_twoStyles : twoStylesReady.batch = twoStylesBatch := by
  have hsearch : (Discovery.search? twoStylesFiles twoStyles isStyle "").getD [] =
      ["b.css", "c.css"] := by decide
  rw [Ready.batch, batchOf, found_twoStyles, Discovery.styles, hsearch, sort_in_order (by decide)]
  rfl

/-- The work on the component. -/
def twoStylesWork : Work := Work.process twoStylesBatch twoStyles twoStylesFiles "A.jsx"

/-- The world after the component. -/
def twoStylesWorld : World :=
  processAll twoStylesBatch twoStyles (fun _ => none) (fun _ _ => false)
    { files := twoStylesFiles } ["A.jsx"]

/-- Where both style files go. -/
def sharedPlace : Path := ⟨"", ["target", "src", "components_migrated_from_source", "c.css"]⟩

theorem twoStyles_check :
    twoStylesWork.product.any (fun p =>
      decide ((.style "b.css", sharedPlace) ∈ p.placed twoStylesBatch) &&
      decide ((.style "c.css", sharedPlace) ∈ p.placed twoStylesBatch)) = true ∧
    (World.passed twoStylesBatch twoStyles (fun _ => none) { files := twoStylesFiles }
      [twoStylesWork]).map (·.1) = [pairPlace "A.jsx", sharedPlace, sharedPlace] ∧
    twoStylesWorld.report.migrated = 1 ∧
    twoStylesWorld.unchanged sharedPlace "p{}" = true := by
  decide +kernel

/-- The registry takes up the product of the component. -/
theorem accepted_twoStyles {p : Product} (hp : twoStylesWork.product = some p) :
    World.accepted Registry.empty [twoStylesWork] = [p] := by
  have hadmitted : World.admitted? Registry.empty twoStylesWork = some p := by
    have hfree : Registry.empty.conflict? p.plan = none := ite_self none
    rw [World.admitted?, hp, Option.filter_some, hfree]
    rfl
  rw [World.accepted, hadmitted]
  rfl

/-- The writer is called for the component and for two style files.  Of these, the two style files
are those that meet. -/
theorem two_styles_meet_iff :
    twoStylesFiles.top.Sound ∧ twoStyles.settings.validate = .ok twoStyles.settings ∧
    ∃ p out, World.accepted Registry.empty [twoStylesWork] = [p] ∧
      run twoStyles (fun _ => none) (fun _ _ => false) twoStylesFiles = .ok out ∧
      out.files = (World.passed twoStylesBatch twoStyles (fun _ => none) twoStylesReady.opening
        [twoStylesWork]).foldl (Disk.send fun _ => none) twoStylesFiles ∧
      (World.passed twoStylesBatch twoStyles (fun _ => none) twoStylesReady.opening
        [twoStylesWork]).map (·.1) = [pairPlace "A.jsx", sharedPlace, sharedPlace] ∧
      ∀ o ∈ p.placed twoStylesBatch, ∀ o' ∈ p.placed twoStylesBatch, o.1 ≠ o'.1 →
        (o.2 = o'.2 ↔ ∃ a a', o.1 = .style a ∧ o'.1 = .style a' ∧
          twoStylesBatch.Converging a a') := by
  obtain ⟨hcheck, hpassed, -⟩ := twoStyles_check
  obtain ⟨p, hp, -⟩ := (Option.any_eq_true _ _).mp hcheck
  have haccepted := accepted_twoStyles hp
  obtain ⟨k, -, works, out, hworks, hcalm, hrun, hfiles, -, hmeet⟩ := files_meet_iff twoStylesReady
    sound_twoStylesFiles rfl rfl (fun _ => none) fun _ _ => false
  obtain rfl := twoStylesReady.works_eq_of_single found_twoStyles (hcalm fun _ _ => rfl) hworks
  rw [batch_twoStyles] at hmeet hfiles
  have hmem : p ∈ World.accepted Registry.empty [twoStylesWork] := by
    rw [haccepted]
    exact List.mem_singleton_self p
  exact ⟨sound_twoStylesFiles, rfl, p, out, haccepted, hrun, hfiles, hpassed, hmeet p hmem p hmem⟩

/-- **Two style files go to one place.**  The settings are checked and give no paths, the component
is told as migrated, and one of its two style files is lost. -/
theorem stem_shared_by_styles :
    twoStyles.settings.validate = .ok twoStyles.settings ∧
    twoStyles.settings.pathOverrides = Table.empty ∧
    ∃ p out, World.accepted Registry.empty
        [Work.process twoStylesReady.batch twoStyles twoStylesFiles "A.jsx"] = [p] ∧
      run twoStyles (fun _ => none) (fun _ _ => false) twoStylesFiles = .ok out ∧
      (.style "b.css", sharedPlace) ∈ p.placed twoStylesReady.batch ∧
      (.style "c.css", sharedPlace) ∈ p.placed twoStylesReady.batch ∧
      out.report.migrated = 1 ∧ out.files.readText sharedPlace = .ok "p{}" := by
  obtain ⟨hcheck, -, hmigrated, htext⟩ := twoStyles_check
  obtain ⟨p, hp, hcheck⟩ := (Option.any_eq_true _ _).mp hcheck
  rw [Bool.and_eq_true, decide_eq_true_eq, decide_eq_true_eq] at hcheck
  have hclosing : twoStylesReady.closing (fun _ => none) (fun _ _ => false) = twoStylesWorld := by
    rw [Ready.closing, batch_twoStyles, found_twoStyles]
    rfl
  refine ⟨rfl, rfl, p, _, ?_, twoStylesReady.run_eq _ _, ?_⟩
  · rw [batch_twoStyles]
    exact accepted_twoStyles hp
  · rw [batch_twoStyles, Ready.report_outcome, Ready.files_outcome, hclosing]
    exact ⟨hcheck.1, hcheck.2, hmigrated, (World.unchanged_iff ..).mp htext⟩

end Migration
end Transplant
