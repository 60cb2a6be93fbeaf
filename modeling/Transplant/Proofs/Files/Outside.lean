import Transplant.Proofs.Adapt.Reading
import Transplant.Proofs.Files.Written

/-!
# Directories that no path enters

Writing a file makes the directories on its way.  A path that goes back with `..` may make one and
leave it again, so it is not enough that the file itself is outside a directory for the directory to
stay as it is.  A path that avoids a directory has no place on its way at or below it, and then the
whole tree in the directory is the same after the file has been written.

* `Disk.Avoids`, `Disk.avoids_of_notMem`: paths that do not enter a directory
* `Disk.get?_write`: writing along such a path leaves the directory as it is
-/

namespace Transplant

namespace Disk

open FileTree

variable {d d' : Disk} {p : Path} {place : List String}

/-- A path that does not enter a directory: no place on its way is the directory or below it. -/
def Avoids (d : Disk) (place : List String) (p : Path) : Prop :=
  ∀ l r, p.parts = l ++ r → l ≠ [] → ¬ place <+: (l.foldl step (d.base p)).reverse

theorem Avoids.above {root : String} {init rest : List String}
    (h : d.Avoids place ⟨root, init ++ rest⟩) : d.Avoids place ⟨root, init⟩ := by
  intro l r hparts
  refine h l (r ++ rest) ?_
  rw [← List.append_assoc, ← hparts]

theorem Avoids.destination (h : d.Avoids place p) (hp : p.parts ≠ []) :
    ¬ place <+: d.destination p :=
  h p.parts [] (List.append_nil _).symm hp

/-- A path that only goes down enters a directory just if it ends at or below it. -/
theorem avoids_of_notMem (hdown : ".." ∉ p.parts) (h : ¬ place <+: d.destination p) :
    d.Avoids place p := by
  intro l r hparts _ hplace
  have hl : ".." ∉ l := fun hmem => hdown (hparts ▸ List.mem_append_left _ hmem)
  have hr : ".." ∉ r := fun hmem => hdown (hparts ▸ List.mem_append_right _ hmem)
  refine h (hplace.trans ?_)
  rw [destination, hparts, List.foldl_append, foldl_step hr]
  exact List.prefix_append _ r

theorem Grows.avoids {S : List String → Prop} (hgrows : Grows S d d') (h : d.Avoids place p) :
    d'.Avoids place p := by
  intro l r hparts hl
  rw [hgrows.base]
  exact h l r hparts hl

/-- Putting something where no directory is, and not into a directory, leaves the directory as it
is. -/
theorem get?_put_outside {x : FileTree} {other : List String}
    (hplace : d.top.sight place = .directory) (hother : d.top.sight other ≠ .directory)
    (houtside : ¬ place <+: other) : (d.top.put other x).get? place = d.top.get? place := by
  refine get?_put_apart ?_ houtside d.top x
  rintro ⟨r, rfl⟩
  exact hother (directory_above hplace)

theorem get?_makeDirectory (hplace : d.top.sight place = .directory) (hp : d.Avoids place p)
    (hne : p.parts ≠ []) (h : d.makeDirectory p = .ok d') :
    d'.top.get? place = d.top.get? place := by
  obtain ⟨other, hresolve, h⟩ := exists_of_bind h
  obtain ⟨rfl, -⟩ := resolve_eq_ok_iff.mp hresolve
  split at h
  · cases h
  · rename_i hnone
    obtain rfl := Except.ok.inj h
    have hnothing := sight_eq_nothing_iff.mpr hnone
    exact get?_put_outside hplace (by simp [hnothing]) (hp.destination hne)

theorem get?_ensureDirectory (hplace : d.top.sight place = .directory) (hp : d.Avoids place p)
    (hne : p.parts ≠ []) (h : d.ensureDirectory p = .ok d') :
    d'.top.get? place = d.top.get? place := by
  unfold ensureDirectory at h
  split at h
  · rename_i made hmade
    obtain rfl := Except.ok.inj h
    exact get?_makeDirectory hplace hp hne hmade
  · split at h
    · obtain rfl := Except.ok.inj h
      rfl
    · cases h

theorem get?_ensureDirectories {root : String} {names : List String}
    (hplace : d.top.sight place = .directory) (hp : d.Avoids place ⟨root, names.reverse⟩)
    (h : d.ensureDirectories root names = .ok d') : d'.top.get? place = d.top.get? place := by
  induction names generalizing d d' with
  | nil =>
    obtain rfl := Except.ok.inj h
    rfl
  | cons last above ih =>
    have hne : (last :: above).reverse ≠ [] := fun hnil =>
      List.cons_ne_nil _ _ (List.reverse_eq_nil_iff.mp hnil)
    have habove : d.Avoids place ⟨root, above.reverse⟩ := by
      rw [List.reverse_cons] at hp
      exact hp.above
    unfold ensureDirectories at h
    simp only at h
    split at h
    · obtain ⟨made, hmade, h⟩ := exists_of_bind h
      have hgrows := grows_ensureDirectories hmade
      rw [get?_ensureDirectory (hgrows.top.directory hplace) (hgrows.avoids hp) hne h,
        ih hplace habove hmade]
    · exact get?_ensureDirectory hplace hp hne h

/-- Writing along a path that does not enter a directory leaves the directory as it is. -/
theorem get?_write (hplace : d.top.sight place = .directory) (hp : d.Avoids place p)
    (hhere : p ≠ Path.here) (text : String) :
    (d.write p text).1.top.get? place = d.top.get? place := by
  have hparent : d.Avoids place ⟨p.root, p.parent.parts.reverse.reverse⟩ := by
    obtain ⟨last, hlast⟩ := List.dropLast_prefix p.parts
    have hp' : d.Avoids place ⟨p.root, p.parent.parts ++ last⟩ := by
      rw [show p.parent.parts ++ last = p.parts from hlast]
      exact hp
    rw [List.reverse_reverse]
    exact hp'.above
  unfold write
  split
  · rfl
  · rename_i made hmade
    have hgrows := grows_ensureDirectories hmade
    have hsame := get?_ensureDirectories hplace hparent hmade
    have hplace' := hgrows.top.directory hplace
    split
    · exact hsame
    · rename_i other hresolve
      obtain ⟨rfl, -⟩ := resolve_eq_ok_iff.mp hresolve
      split
      · exact hsame
      · rename_i hnot
        have hfree : made.top.sight (made.destination p) ≠ .directory := by
          intro hdirectory
          obtain ⟨entries, hget⟩ := sight_eq_directory_iff.mp hdirectory
          exact hnot entries hget
        refine Eq.trans (get?_put_outside hplace' hfree ?_) hsame
        refine (hgrows.avoids hp).destination fun hnil => hfree ?_
        -- without names the path leads to the top, which has the directory in it
        have htop : made.destination p = [] := by
          have hroot : p.root ≠ "" := fun hroot => hhere (by
            cases p
            simp_all [Path.here])
          rw [destination, hnil, base, if_neg hroot]
          rfl
        rw [htop]
        exact directory_above (l := []) hplace'

end Disk

end Transplant
