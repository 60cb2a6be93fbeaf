import Transplant.Migration.Discovery
import Transplant.Proofs.Path.Pure
import Mathlib.Data.List.Basic

/-!
# Searching inside a project

The files of a project are known by their ways from the project.  A directory that is searched for
components is taken as it is configured.  If it is absolute, it can be somewhere else, and then there
is no way to its files: the first of them ends the search.

* `Discovery.way_of_relative`, `Discovery.parts_way`: the components of a way
* `Discovery.stray?_eq_none_iff`: a search comes to an end if there is a way to every file
* `Discovery.stray?_of_inside`: and so it does if the directories are in the project
-/

namespace Transplant
namespace Discovery

variable {files : Disk} {j : Job} {dir : String} {place : List String} {q : Path}

/-! ## Ways -/

theorem way_eq_ok_iff :
    way j dir place = .ok q ↔
      q.root = "" ∧ j.sourceDir.child dir ++ ⟨"", place⟩ = j.sourceDir ++ q := by
  constructor
  · intro h
    exact (Path.relativeTo_cases h).symm
  · rintro ⟨hroot, hplace⟩
    rw [way, hplace, Path.relativeTo_append hroot]

/-- Below a directory that is relative to the project, the way leads through this directory. -/
theorem way_of_relative (hdir : (Path.ofString dir).root = "") (place : List String) :
    way j dir place = .ok ⟨"", (Path.ofString dir).parts ++ place⟩ := by
  refine way_eq_ok_iff.mpr ⟨rfl, ?_⟩
  rw [Path.child, Path.append_of_relative hdir, Path.append_of_relative rfl,
    Path.append_of_relative rfl, List.append_assoc]

/-- A way has the components of the directory and of the place, without some at the beginning. -/
theorem parts_way (h : way j dir place = .ok q) :
    q.parts <:+ (Path.ofString dir).parts ++ place := by
  by_cases hdir : (Path.ofString dir).root = ""
  · rw [way_of_relative hdir] at h
    obtain rfl := Except.ok.inj h
    exact List.suffix_rfl
  · obtain ⟨hroot, hplace⟩ := way_eq_ok_iff.mp h
    rw [Path.child, show j.sourceDir ++ Path.ofString dir = Path.ofString dir from if_neg hdir,
      Path.append_of_relative rfl, Path.append_of_relative hroot] at hplace
    exact ⟨j.sourceDir.parts, (congrArg Path.parts hplace).symm⟩

/-- What is found below a directory that is relative to the project. -/
theorem search?_of_relative (hdir : (Path.ofString dir).root = "") (files : Disk)
    (wanted : String → Bool) :
    search? files j wanted dir = (places? files j wanted dir).map fun places =>
      places.map fun place => (Path.mk "" ((Path.ofString dir).parts ++ place)).toString := by
  rw [search?]
  congr 1
  funext places
  rw [← List.filterMap_eq_map]
  refine List.filterMap_congr fun place _ => ?_
  rw [way_of_relative hdir]
  rfl

/-! ## Directories in the project -/

/-- A directory that is in the project as it is written. -/
def Inside (j : Job) (dir : String) : Prop :=
  ∃ q, (j.sourceDir.child dir).relativeTo j.sourceDir = .ok q

theorem inside_of_relative (hdir : (Path.ofString dir).root = "") : Inside j dir := by
  refine ⟨Path.ofString dir, ?_⟩
  rw [Path.child, Path.relativeTo_append hdir]

/-- There is a way to every place below a directory in the project. -/
theorem way_of_inside (h : Inside j dir) (place : List String) : ∃ q, way j dir place = .ok q := by
  obtain ⟨q, hq⟩ := h
  obtain ⟨hdir, hroot⟩ := Path.relativeTo_cases hq
  refine ⟨⟨"", q.parts ++ place⟩, way_eq_ok_iff.mpr ⟨rfl, ?_⟩⟩
  rw [hdir, Path.append_of_relative hroot, Path.append_of_relative rfl,
    Path.append_of_relative rfl, List.append_assoc]

/-! ## The end of a search -/

/-- **A search comes to an end just if there is a way to every file that it comes by.** -/
theorem stray?_eq_none_iff :
    stray? files j = none ↔ ∀ dir ∈ roots j,
      ∀ place ∈ (places? files j isComponent dir).getD [], ∃ q, way j dir place = .ok q := by
  unfold stray?
  simp only [List.findSome?_eq_none_iff, List.mem_mergeSort]
  refine forall₄_congr fun dir _ place _ => ?_
  cases way j dir place with
  | ok q => exact iff_of_true rfl ⟨q, rfl⟩
  | error e => exact iff_of_false (Option.some_ne_none e) (by simp)

/-- Directories in the project do not lead out of it. -/
theorem stray?_of_inside (files : Disk) (h : ∀ dir ∈ j.componentDirs, Inside j dir) :
    stray? files j = none := by
  refine stray?_eq_none_iff.mpr fun dir hdir place _ => way_of_inside ?_ place
  unfold roots at hdir
  split at hdir
  · rw [List.mem_singleton.mp hdir]
    exact inside_of_relative (by decide)
  · exact h dir hdir

/-- Neither does the project itself. -/
theorem stray?_of_nil (files : Disk) (h : j.componentDirs = []) : stray? files j = none := by
  refine stray?_of_inside files fun dir hdir => ?_
  rw [h] at hdir
  cases hdir

theorem discover_of_stray? (h : stray? files j = none) :
    discover files j = .ok (components files j) := by
  rw [discover, h]

theorem stray?_of_discover {r : List String × List LogLine} (h : discover files j = .ok r) :
    stray? files j = none ∧ r = components files j := by
  unfold discover at h
  split at h
  · cases h
  · rename_i hstray
    exact ⟨hstray, (Except.ok.inj h).symm⟩

end Discovery
end Transplant
