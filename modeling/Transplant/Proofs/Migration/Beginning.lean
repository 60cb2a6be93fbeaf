import Transplant.Proofs.Migration.Sequential
import Transplant.Proofs.Project.Trouble

/-!
# When a migration can begin

A migration looks at both projects before the first file.  If it comes through that, it comes to an
end, whatever happens to the files (`Migration.Ready.run_eq`).  It comes through just if both
projects are there, no component file is found outside of the source project, and something can be
told about each of the projects.

* `Migration.nonempty_ready_iff`: what it takes for a migration to begin
* `Migration.run_returns_iff`: the same of the run, with all that can keep it from beginning
-/

namespace Transplant

section Except

variable {ε ε' α β : Type} {x : Except ε α}

theorem exists_bind_eq_ok_iff {f : α → Except ε β} :
    (∃ b, x >>= f = .ok b) ↔ ∃ a, x = .ok a ∧ ∃ b, f a = .ok b := by
  cases x with
  | error e => simp [bind, Except.bind]
  | ok a => simp [bind, Except.bind]

theorem mapError_eq_ok_iff {f : ε → ε'} {a : α} : x.mapError f = .ok a ↔ x = .ok a := by
  cases x with
  | error e => simp [Except.mapError]
  | ok a => simp [Except.mapError]

end Except

namespace Migration

open Project (Holds TooLong Declares)

variable {j : Job} {files : Disk}

theorem frameworkCheck_returns_iff :
    (∃ r, frameworkCheck j files = .ok r) ↔
      (∃ r, Project.framework files j.sourceDir = .ok r) ∧
        ∃ r, Project.framework files j.targetDir = .ok r := by
  unfold frameworkCheck
  simp only [exists_bind_eq_ok_iff, mapError_eq_ok_iff]
  constructor
  · rintro ⟨source, hsource, target, htarget, -⟩
    exact ⟨⟨source, hsource⟩, target, htarget⟩
  · rintro ⟨⟨source, hsource⟩, target, htarget⟩
    exact ⟨source, hsource, target, htarget, _, rfl⟩

theorem settings_returns_iff :
    (∃ r, settings j files = .ok r) ↔
      (∃ r, Project.aliases files j.sourceDir = .ok r) ∧
        ∃ r, Project.aliases files j.targetDir = .ok r := by
  unfold settings
  simp only [exists_bind_eq_ok_iff, mapError_eq_ok_iff]
  constructor
  · rintro ⟨source, hsource, target, htarget, -⟩
    exact ⟨⟨source, hsource⟩, target, htarget⟩
  · rintro ⟨⟨source, hsource⟩, target, htarget⟩
    refine ⟨source, hsource, target, htarget, ?_⟩
    split
    · exact ⟨_, rfl⟩
    · exact ⟨_, rfl⟩

/-- **A migration can begin just if both projects are there, no component file is found outside, and
something can be told about the projects.** -/
theorem nonempty_ready_iff :
    Nonempty (Ready j files) ↔
      checkRoots j files = .ok () ∧ Discovery.stray? files j = none ∧
        Project.Told files j.sourceDir ∧ Project.Told files j.targetDir := by
  rw [Project.told_iff, Project.told_iff]
  constructor
  · rintro ⟨g⟩
    obtain ⟨hsource, htarget⟩ := frameworkCheck_returns_iff.mp ⟨_, g.framework⟩
    obtain ⟨hsource', htarget'⟩ := settings_returns_iff.mp ⟨_, g.aliases⟩
    exact ⟨g.roots, g.inside, ⟨hsource, hsource'⟩, htarget, htarget'⟩
  · rintro ⟨hroots, hinside, ⟨hsource, hsource'⟩, htarget, htarget'⟩
    obtain ⟨⟨events, frameworkLog⟩, hframework⟩ := frameworkCheck_returns_iff.mpr ⟨hsource, htarget⟩
    obtain ⟨⟨s, aliasLog⟩, haliases⟩ := settings_returns_iff.mpr ⟨hsource', htarget'⟩
    exact ⟨⟨events, s, frameworkLog, aliasLog, hroots, hinside, hframework, haliases⟩⟩

/-- A migration that comes to an end could begin. -/
theorem nonempty_ready_of_run {faults : Faults} {calledOff : Nat → World → Bool} {out : Outcome}
    (h : run j faults calledOff files = .ok out) : Nonempty (Ready j files) := by
  obtain ⟨⟨⟩, hroots, h⟩ := exists_of_bind h
  obtain ⟨found, hfound, h⟩ := exists_of_bind h
  obtain ⟨⟨events, frameworkLog⟩, hframework, h⟩ := exists_of_bind h
  obtain ⟨⟨s, aliasLog⟩, haliases, -⟩ := exists_of_bind h
  have hinside := (Discovery.stray?_of_discover (ok_of_mapError hfound)).1
  exact ⟨⟨events, s, frameworkLog, aliasLog, hroots, hinside, hframework, haliases⟩⟩

/-- **What can keep a migration from beginning.**  The framework of a project is told unless its
manifest is JSON but no object or has a whole number that is too long; its aliases are told unless
there is such a number in a file that is looked at for them; and a number is too long only where
there are too many digits in a row.  If both projects are there and no component file is found
outside of the source project, a migration goes through all its files just if all of this is told of
both projects.  Nothing is found outside if the directories to be searched are in the project. -/
theorem run_returns_iff (j : Job) (faults : Faults) (calledOff : Nat → World → Bool)
    (files : Disk) :
    (∀ dir, (∃ r, Project.framework files dir = .ok r) ↔
      ¬ TooLong files (dir.child "package.json") ∧
        ∀ v, Holds files (dir.child "package.json") v → ∃ entries, v = .table entries) ∧
    (∀ dir, (∃ r, Project.aliases files dir = .ok r) ↔
      ¬ TooLong files (dir.child "tsconfig.json") ∧
        (Declares files (dir.child "tsconfig.json") ∨
          ¬ TooLong files (dir.child "jsconfig.json"))) ∧
    (∀ p, TooLong files p →
      ∃ text, files.readText p = .ok text ∧ Json.Overlong text.toList) ∧
    ((∃ out, run j faults calledOff files = .ok out) ↔
      checkRoots j files = .ok () ∧ Discovery.stray? files j = none ∧
        Project.Told files j.sourceDir ∧ Project.Told files j.targetDir) ∧
    (checkRoots j files = .ok () → (∀ dir ∈ j.componentDirs, Discovery.Inside j dir) →
      Project.Told files j.sourceDir → Project.Told files j.targetDir → ∃ g : Ready j files,
        run j faults calledOff files = .ok (g.outcome (g.closing faults calledOff))) := by
  refine ⟨fun _ => Project.framework_returns_iff, fun _ => Project.aliases_returns_iff,
    fun _ => Project.overlong_of_tooLong, ⟨?_, ?_⟩, fun hroots hdirs hsource htarget => ?_⟩
  · rintro ⟨out, hout⟩
    exact nonempty_ready_iff.mp (nonempty_ready_of_run hout)
  · intro h
    obtain ⟨g⟩ := nonempty_ready_iff.mpr h
    exact ⟨_, g.run_eq faults calledOff⟩
  · have hinside := Discovery.stray?_of_inside files hdirs
    obtain ⟨g⟩ := nonempty_ready_iff.mpr ⟨hroots, hinside, hsource, htarget⟩
    exact ⟨g, g.run_eq faults calledOff⟩

/-- Two projects with next to nothing to tell: values that are not looked into, a directory for a
file, and a file that is no text. -/
def oddFiles : Disk where
  top := .directory
    [("source", .directory
      [("package.json", .file (Utf8.encode "\x7b\x7d")),
        ("tsconfig.json", .file (Utf8.encode "[[]]")), ("jsconfig.json", .empty)]),
      ("target", .directory [("package.json", .file [255])])]

/-- Two projects, the first of which has a list for a manifest. -/
def listedFiles : Disk where
  top := .directory [("source", .directory [("package.json", .file (Utf8.encode "[]"))]),
    ("target", .empty)]

/-- A job over two projects. -/
def overTwo : Job where
  sourceDir := ⟨"", ["source"]⟩
  targetDir := ⟨"", ["target"]⟩

/-- The same job, to look for components in a directory that is not there. -/
def overLibrary : Job := { overTwo with componentDirs := ["lib"] }

/-- Something can be told about the first of the odd projects. -/
theorem told_odd_source : Project.Told oddFiles overTwo.sourceDir := by
  have hmanifest : Project.glance oddFiles ⟨"", ["source", "package.json"]⟩ =
      .ok (.value (.table [])) := by
    have hread : oddFiles.readText ⟨"", ["source", "package.json"]⟩ = .ok "\x7b\x7d" := rfl
    have hparse : Json.parse "\x7b\x7d" = .ok (.table []) := rfl
    simp only [Project.glance, hread, hparse]
  have htsconfig : Project.glance oddFiles ⟨"", ["source", "tsconfig.json"]⟩ =
      .ok (.value (.list [.list []])) := by
    have hread : oddFiles.readText ⟨"", ["source", "tsconfig.json"]⟩ = .ok "[[]]" := rfl
    have hparse : Json.parse "[[]]" = .ok (.list [.list []]) := rfl
    simp only [Project.glance, hread, hparse]
  have hjsconfig : Project.glance oddFiles ⟨"", ["source", "jsconfig.json"]⟩ = .ok .unusable := rfl
  refine ⟨Project.glance_returns_iff.mp ⟨_, hmanifest⟩, fun v hv => ?_,
    Project.glance_returns_iff.mp ⟨_, htsconfig⟩, .inr (Project.glance_returns_iff.mp ⟨_, hjsconfig⟩)⟩
  exact ⟨_, (Option.some.inj ((Project.value?_glance_eq_some_iff hmanifest).mpr hv)).symm⟩

/-- Something can be told about the second of them. -/
theorem told_odd_target : Project.Told oddFiles overTwo.targetDir := by
  have hmanifest : Project.glance oddFiles ⟨"", ["target", "package.json"]⟩ = .ok .unusable := rfl
  have htsconfig : Project.glance oddFiles ⟨"", ["target", "tsconfig.json"]⟩ = .ok .missing := rfl
  have hjsconfig : Project.glance oddFiles ⟨"", ["target", "jsconfig.json"]⟩ = .ok .missing := rfl
  refine ⟨Project.glance_returns_iff.mp ⟨_, hmanifest⟩, fun v hv => ?_,
    Project.glance_returns_iff.mp ⟨_, htsconfig⟩, .inr (Project.glance_returns_iff.mp ⟨_, hjsconfig⟩)⟩
  cases (Project.value?_glance_eq_some_iff hmanifest).mpr hv

/-- Next to nothing to tell is enough for a migration to go through. -/
theorem odd_run_returns :
    checkRoots overLibrary oddFiles = .ok () ∧
      (∀ dir ∈ overLibrary.componentDirs, Discovery.Inside overLibrary dir) ∧
      Project.Told oddFiles overLibrary.sourceDir ∧ Project.Told oddFiles overLibrary.targetDir ∧
      ∃ g : Ready overLibrary oddFiles,
        run overLibrary (fun _ => none) (fun _ _ => false) oddFiles =
          .ok (g.outcome (g.closing (fun _ => none) fun _ _ => false)) := by
  have hroots : checkRoots overLibrary oddFiles = .ok () := rfl
  have hdirs : ∀ dir ∈ overLibrary.componentDirs, Discovery.Inside overLibrary dir := by
    intro dir hdir
    rw [List.mem_singleton.mp hdir]
    exact Discovery.inside_of_relative (by decide)
  obtain ⟨-, -, -, -, hgoes⟩ :=
    run_returns_iff overLibrary (fun _ => none) (fun _ _ => false) oddFiles
  exact ⟨hroots, hdirs, told_odd_source, told_odd_target,
    hgoes hroots hdirs told_odd_source told_odd_target⟩

/-- A list for a manifest keeps a migration from beginning. -/
theorem listed_not_begun :
    checkRoots overTwo listedFiles = .ok () ∧
      run overTwo (fun _ => none) (fun _ _ => false) listedFiles =
        .error (.project (.notObject "source/package.json")) := by
  refine ⟨rfl, ?_⟩
  unfold run
  rw [Discovery.discover_of_stray? (Discovery.stray?_of_nil listedFiles rfl)]
  rfl

end Migration
end Transplant
