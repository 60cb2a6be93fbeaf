import Transplant.Files.Access
import Mathlib.Data.List.Infix

/-!
# Disks that grow

Writing makes files and the directories above them, and never takes anything away.  What is seen at
a place (`FileTree.sight`) changes in two ways only: a directory can come where nothing was, and a
file can come, or get new content, where one is written.  `FileTree.Grows` says so for a set of
places that are written.

## Where a path leads

There are no links, so the place that a path names is known without looking (`Disk.destination`).
Whether the path leads there has to be seen, as each of its names is looked up in a directory
(`Disk.Leads`).  The two come apart where `..` follows the name of a directory that is missing: the
path leads nowhere, until the directory is made.

* `FileTree.Grows`: what can change when files are written at some places
* `Disk.resolve_eq_ok_iff`, `Disk.readBytes_eq_ok_iff`: reading, in terms of sights
* `Disk.write_cases`: what writing does
* `Disk.Grows.readBytes`, `Disk.Grows.readBytes_before`: what is not written reads as before
-/

namespace Transplant
namespace FileTree

/-- What is seen at a place. -/
inductive Sight where
  | nothing
  | directory
  | file (content : Bytes)
deriving DecidableEq

/-- What is seen at a place of the tree. -/
def sight (t : FileTree) (place : List String) : Sight :=
  match t.get? place with
  | none => .nothing
  | some (.directory _) => .directory
  | some (.file content) => .file content

theorem sight_eq_nothing_iff {t : FileTree} {place : List String} :
    t.sight place = .nothing ↔ t.get? place = none := by
  unfold sight
  split <;> simp_all

theorem sight_eq_directory_iff {t : FileTree} {place : List String} :
    t.sight place = .directory ↔ ∃ entries, t.get? place = some (.directory entries) := by
  unfold sight
  split <;> simp_all

theorem sight_eq_file_iff {t : FileTree} {place : List String} {content : Bytes} :
    t.sight place = .file content ↔ t.get? place = some (.file content) := by
  unfold sight
  split <;> simp_all

theorem get?_append (t : FileTree) (l r : List String) :
    t.get? (l ++ r) = (t.get? l).bind (·.get? r) := by
  induction l generalizing t with
  | nil => rfl
  | cons name rest ih =>
    simp only [List.cons_append, get?]
    cases t.entries.lookup name with
    | none => rfl
    | some child => exact ih child

theorem get?_file {content : Bytes} {r : List String} (h : r ≠ []) :
    (file content).get? r = none := by
  cases r with
  | nil => exact absurd rfl h
  | cons name rest => rfl

theorem get?_empty {r : List String} (h : r ≠ []) : empty.get? r = none := by
  cases r with
  | nil => exact absurd rfl h
  | cons name rest => rfl

/-- Whatever stands at a place has directories above it. -/
theorem sight_above {t : FileTree} {l r : List String} (h : t.sight (l ++ r) ≠ .nothing)
    (hr : r ≠ []) : t.sight l = .directory := by
  rw [ne_eq, sight_eq_nothing_iff, get?_append] at h
  rw [sight_eq_directory_iff]
  cases hl : t.get? l with
  | none => rw [hl] at h; exact absurd rfl h
  | some x =>
    cases x with
    | file content =>
      rw [hl, Option.bind_some, get?_file hr] at h
      exact absurd rfl h
    | directory entries => exact ⟨entries, rfl⟩

theorem directory_above {t : FileTree} {l r : List String} (h : t.sight (l ++ r) = .directory) :
    t.sight l = .directory := by
  by_cases hr : r = []
  · rwa [hr, List.append_nil] at h
  · exact sight_above (by simp [h]) hr

/-! ## Something else at one place -/

theorem get?_put_below (t : FileTree) (place r : List String) (x : FileTree) :
    (t.put place x).get? (place ++ r) = x.get? r := by
  rw [get?_append, get?_put_self, Option.bind_some]

theorem sight_put_above (t : FileTree) (l : List String) {r : List String} (hr : r ≠ [])
    (x : FileTree) : (t.put (l ++ r) x).sight l = .directory :=
  sight_above (by rw [ne_eq, sight_eq_nothing_iff, get?_put_self]; exact Option.some_ne_none x) hr

theorem get?_put_apart {place other : List String} (h : ¬ place <+: other) (h' : ¬ other <+: place)
    (t x : FileTree) : (t.put place x).get? other = t.get? other := by
  induction place generalizing t other with
  | nil => exact absurd (List.nil_prefix) h
  | cons name rest ih =>
    cases other with
    | nil => exact absurd (List.nil_prefix) h'
    | cons name' rest' =>
      show ((Table.putEntry name (((t.entries.lookup name).getD empty).put rest x) t.entries).lookup
        name').bind (fun child => child.get? rest') = (t.entries.lookup name').bind _
      rw [Table.lookup_putEntry]
      by_cases hname : name' = name
      · subst hname
        rw [List.cons_prefix_cons] at h h'
        have hrest := ih (fun hp => h ⟨rfl, hp⟩) fun hp => h' ⟨rfl, hp⟩
        rw [if_pos rfl, Option.bind_some, hrest]
        cases hlookup : t.entries.lookup name' with
        | none =>
          -- the child is made, and it has nothing but what is on the way
          refine get?_empty ?_
          rintro rfl
          exact h' ⟨rfl, List.nil_prefix⟩
        | some child => rfl
      · rw [if_neg hname]

/-! ## Growth -/

/-- The tree `t'` can be what becomes of `t` when files are written at the places in `S`: what is
seen at a place is the same, or a directory that was made where nothing was, or a file that was
written. -/
def Grows (S : List String → Prop) (t t' : FileTree) : Prop :=
  ∀ place, t'.sight place = t.sight place ∨
    (t.sight place = .nothing ∧ t'.sight place = .directory) ∨
    (S place ∧ t.sight place ≠ .directory ∧ ∃ content, t'.sight place = .file content)

theorem Grows.refl (S : List String → Prop) (t : FileTree) : Grows S t t := fun _ => Or.inl rfl

theorem Grows.mono {S S' : List String → Prop} {t t' : FileTree} (h : Grows S t t')
    (hS : ∀ place, S place → S' place) : Grows S' t t' := by
  intro place
  obtain hsame | hmade | ⟨hplace, hfile⟩ := h place
  · exact Or.inl hsame
  · exact Or.inr (Or.inl hmade)
  · exact Or.inr (Or.inr ⟨hS place hplace, hfile⟩)

theorem Grows.trans {S : List String → Prop} {t t' t'' : FileTree} (h : Grows S t t')
    (h' : Grows S t' t'') : Grows S t t'' := by
  intro place
  obtain hsame | ⟨hnothing, hmade⟩ | ⟨hplace, hnot, content, hfile⟩ := h place
  · rw [← hsame]
    exact h' place
  · obtain hsame' | ⟨hnothing', -⟩ | ⟨-, hnot', -⟩ := h' place
    · exact Or.inr (Or.inl ⟨hnothing, hsame'.trans hmade⟩)
    · rw [hmade] at hnothing'
      cases hnothing'
    · exact absurd hmade hnot'
  · obtain hsame' | ⟨hnothing', -⟩ | ⟨-, -, hfile'⟩ := h' place
    · exact Or.inr (Or.inr ⟨hplace, hnot, content, hsame'.trans hfile⟩)
    · rw [hfile] at hnothing'
      cases hnothing'
    · exact Or.inr (Or.inr ⟨hplace, hnot, hfile'⟩)

theorem Grows.directory {S : List String → Prop} {t t' : FileTree} (h : Grows S t t')
    {place : List String} (hd : t.sight place = .directory) : t'.sight place = .directory := by
  obtain hsame | ⟨hnothing, -⟩ | ⟨-, hnot, -⟩ := h place
  · exact hsame.trans hd
  · rw [hd] at hnothing
    cases hnothing
  · exact absurd hd hnot

/-- A file keeps its content unless it is written. -/
theorem Grows.file {S : List String → Prop} {t t' : FileTree} (h : Grows S t t')
    {place : List String} (hplace : ¬ S place) {content : Bytes}
    (hf : t.sight place = .file content) : t'.sight place = .file content := by
  obtain hsame | ⟨hnothing, -⟩ | ⟨hwritten, -⟩ := h place
  · exact hsame.trans hf
  · rw [hf] at hnothing
    cases hnothing
  · exact absurd hwritten hplace

/-- A file that was not written has been there. -/
theorem Grows.file_before {S : List String → Prop} {t t' : FileTree} (h : Grows S t t')
    {place : List String} (hplace : ¬ S place) {content : Bytes}
    (hf : t'.sight place = .file content) : t.sight place = .file content := by
  obtain hsame | ⟨-, hmade⟩ | ⟨hwritten, -⟩ := h place
  · exact hsame.symm.trans hf
  · rw [hf] at hmade
    cases hmade
  · exact absurd hwritten hplace

/-- Putting a file or an empty directory at a place where no directory is, and below no file. -/
theorem grows_put {S : List String → Prop} {t x : FileTree} {place : List String}
    (hx : ∀ r, r ≠ [] → x.get? r = none) (hplace : t.sight place ≠ .directory)
    (habove : ∀ l r, place = l ++ r → r ≠ [] → ∀ content, t.sight l ≠ .file content)
    (hnew : (t.sight place = .nothing ∧ x.sight [] = .directory) ∨
      (S place ∧ ∃ content, x.sight [] = .file content)) : Grows S t (t.put place x) := by
  intro other
  by_cases hbelow : place <+: other
  · obtain ⟨r, rfl⟩ := hbelow
    by_cases hr : r = []
    · subst hr
      have hsight : (t.put place x).sight (place ++ []) = x.sight [] := by
        unfold sight
        rw [get?_put_below]
      rw [hsight]
      simp only [List.append_nil]
      obtain ⟨hnothing, hmade⟩ | ⟨hwritten, hfile⟩ := hnew
      · exact Or.inr (Or.inl ⟨hnothing, hmade⟩)
      · exact Or.inr (Or.inr ⟨hwritten, hplace, hfile⟩)
    · -- below the place there is nothing, before and after
      have hafter : (t.put place x).sight (place ++ r) = .nothing := by
        rw [sight_eq_nothing_iff, get?_put_below, hx r hr]
      have hbefore : t.sight (place ++ r) = .nothing := by
        by_contra hsome
        exact hplace (sight_above hsome hr)
      exact Or.inl (hafter.trans hbefore.symm)
  · by_cases habove' : other <+: place
    · obtain ⟨r, rfl⟩ := habove'
      have hr : r ≠ [] := by
        rintro rfl
        exact hbelow (by rw [List.append_nil])
      have hafter := sight_put_above t other hr x
      cases hbefore : t.sight other with
      | nothing => exact Or.inr (Or.inl ⟨rfl, hafter⟩)
      | directory => exact Or.inl hafter
      | file content => exact absurd hbefore (habove other r rfl hr content)
    · refine Or.inl ?_
      unfold sight
      rw [get?_put_apart hbelow habove']

end FileTree

namespace Disk

open FileTree

variable {d d' : Disk} {p : Path}

/-! ## Following paths -/

/-- The way to a place, last name first, after one more name. -/
def step (done : List String) (name : String) : List String :=
  if name = ".." then done.tail else name :: done

/-- The names that a path starts from, last name first. -/
def base (d : Disk) (p : Path) : List String := if p.root = "" then d.here.reverse else []

/-- The place that a path names. -/
def destination (d : Disk) (p : Path) : List String := (p.parts.foldl step (d.base p)).reverse

/-- The path can be followed: every name in it is looked up in a directory. -/
def Leads (d : Disk) (p : Path) : Prop :=
  ∀ l name r, p.parts = l ++ name :: r → d.top.sight (l.foldl step (d.base p)).reverse = .directory

theorem follow_eq_ok_iff {t : FileTree} {path : String} {done names place : List String} :
    follow t path done names = .ok place ↔
      place = (names.foldl step done).reverse ∧
        ∀ l name r, names = l ++ name :: r →
          t.sight (l.foldl step done).reverse = .directory := by
  induction names generalizing done with
  | nil => simp [follow, eq_comm]
  | cons first rest ih =>
    have hstep : (if first = ".." then done.tail else first :: done) = step done first := rfl
    constructor
    · intro h
      rw [follow] at h
      split at h
      · cases h
      · cases h
      · rename_i entries hget
        rw [hstep, ih] at h
        refine ⟨h.1, fun l name r hl => ?_⟩
        cases l with
        | nil => exact sight_eq_directory_iff.mpr ⟨entries, hget⟩
        | cons n l' =>
          obtain ⟨rfl, hrest⟩ := List.cons.inj hl
          exact h.2 l' name r hrest
    · rintro ⟨hplace, hall⟩
      obtain ⟨entries, hget⟩ := sight_eq_directory_iff.mp (hall [] first rest rfl)
      have hget : t.get? done.reverse = some (.directory entries) := hget
      rw [follow, hget]
      refine ih.mpr ⟨hplace, fun l name r hl => hall (first :: l) name r ?_⟩
      rw [hl]
      rfl

theorem resolve_eq_ok_iff {place : List String} :
    d.resolve p = .ok place ↔ place = d.destination p ∧ d.Leads p :=
  follow_eq_ok_iff

theorem at?_eq_ok_iff {x : FileTree} :
    d.at? p = .ok x ↔ d.Leads p ∧ d.top.get? (d.destination p) = some x := by
  unfold at?
  cases hresolve : d.resolve p with
  | error e =>
    constructor
    · intro h
      cases h
    · rintro ⟨hleads, -⟩
      rw [resolve_eq_ok_iff.mpr ⟨rfl, hleads⟩] at hresolve
      cases hresolve
  | ok place =>
    obtain ⟨rfl, hleads⟩ := resolve_eq_ok_iff.mp hresolve
    cases hget : d.top.get? (d.destination p) with
    | none => simp [bind, Except.bind, hget, throw, throwThe, MonadExceptOf.throw]
    | some y => simp [bind, Except.bind, hget, hleads, pure, Except.pure]

theorem readBytes_eq_ok_iff {content : Bytes} :
    d.readBytes p = .ok content ↔ d.Leads p ∧ d.top.sight (d.destination p) = .file content := by
  rw [sight_eq_file_iff, ← at?_eq_ok_iff]
  unfold readBytes
  cases d.at? p with
  | error e => exact ⟨nofun, nofun⟩
  | ok x =>
    cases x with
    | file c =>
      constructor
      · intro h
        exact congrArg (Except.ok ∘ FileTree.file) (Except.ok.inj h)
      · intro h
        exact congrArg Except.ok (FileTree.file.inj (Except.ok.inj h))
    | directory entries => exact ⟨nofun, nofun⟩

theorem isDirectoryAt_iff :
    d.isDirectoryAt p = true ↔ d.Leads p ∧ d.top.sight (d.destination p) = .directory := by
  rw [sight_eq_directory_iff]
  constructor
  · intro h
    unfold isDirectoryAt at h
    split at h
    · rename_i x hat
      obtain ⟨hleads, hget⟩ := at?_eq_ok_iff.mp hat
      cases x with
      | file c => cases h
      | directory entries => exact ⟨hleads, entries, hget⟩
    · cases h
  · rintro ⟨hleads, entries, hget⟩
    unfold isDirectoryAt
    rw [at?_eq_ok_iff.mpr ⟨hleads, hget⟩]
    rfl

/-! ## Growing disks -/

/-- The disk `d'` can be what becomes of `d` when files are written at the places in `S`. -/
structure Grows (S : List String → Prop) (d d' : Disk) : Prop where
  here : d'.here = d.here
  top : d.top.Grows S d'.top

variable {S S' : List String → Prop}

theorem Grows.refl (S : List String → Prop) (d : Disk) : Grows S d d := ⟨rfl, .refl S d.top⟩

theorem Grows.mono (h : Grows S d d') (hS : ∀ place, S place → S' place) : Grows S' d d' :=
  ⟨h.here, h.top.mono hS⟩

theorem Grows.trans {d'' : Disk} (h : Grows S d d') (h' : Grows S d' d'') : Grows S d d'' :=
  ⟨h'.here.trans h.here, h.top.trans h'.top⟩

theorem Grows.base (h : Grows S d d') (p : Path) : d'.base p = d.base p := by
  rw [Disk.base, h.here, Disk.base]

theorem Grows.destination (h : Grows S d d') (p : Path) : d'.destination p = d.destination p := by
  rw [Disk.destination, h.base, Disk.destination]

/-- A path that could be followed can be followed still. -/
theorem Grows.leads (h : Grows S d d') (hp : d.Leads p) : d'.Leads p := by
  intro l name r hl
  rw [h.base]
  exact h.top.directory (hp l name r hl)

theorem Grows.isDirectoryAt (h : Grows S d d') (hp : d.isDirectoryAt p = true) :
    d'.isDirectoryAt p = true := by
  rw [isDirectoryAt_iff] at hp ⊢
  exact ⟨h.leads hp.1, h.destination p ▸ h.top.directory hp.2⟩

/-- A file that is not written reads as before. -/
theorem Grows.readBytes (h : Grows S d d') (hS : ¬ S (d.destination p)) {content : Bytes}
    (hp : d.readBytes p = .ok content) : d'.readBytes p = .ok content := by
  rw [readBytes_eq_ok_iff] at hp ⊢
  exact ⟨h.leads hp.1, h.destination p ▸ h.top.file hS hp.2⟩

/-- What stands at the place that a path names can be reached along the path.  This fails where `..`
follows the name of a directory that is missing. -/
def Reaches (d : Disk) (p : Path) : Prop :=
  d.top.sight (d.destination p) ≠ .nothing → d.Leads p

/-- A file that can be read, and that was not written, could be read before. -/
theorem Grows.readBytes_before (h : Grows S d d') (hS : ¬ S (d.destination p)) (hp : d.Reaches p)
    {content : Bytes} (hafter : d'.readBytes p = .ok content) : d.readBytes p = .ok content := by
  rw [readBytes_eq_ok_iff, h.destination] at hafter
  have hfile := h.top.file_before hS hafter.2
  rw [readBytes_eq_ok_iff]
  exact ⟨hp (by simp [hfile]), hfile⟩

/-! ## Making directories and writing files -/

/-- A path that can be followed has no file above the place that it names. -/
theorem Leads.not_file_above (h : d.Leads p) (hp : p ≠ Path.here) {l r : List String}
    (hplace : d.destination p = l ++ r) (hr : r ≠ []) (content : Bytes) :
    d.top.sight l ≠ .file content := by
  -- the last name is looked up in a directory, and everything above a directory is one
  have hdirectory : ∀ place, d.top.sight place = .directory → l <+: place →
      d.top.sight l ≠ .file content := by
    rintro place hsight ⟨r', rfl⟩ hfile
    rw [directory_above hsight] at hfile
    cases hfile
  rcases List.eq_nil_or_concat' p.parts with hnil | ⟨init, last, hparts⟩
  · -- an absolute path without names leads to the top
    have hroot : p.root ≠ "" := fun hroot => hp (by
      cases p
      simp_all [Path.here])
    have htop : d.destination p = [] := by
      rw [destination, hnil, base, if_neg hroot]
      rfl
    rw [htop] at hplace
    exact absurd (List.append_eq_nil_iff.mp hplace.symm).2 hr
  · have hlast := h init last [] hparts
    refine hdirectory _ hlast ?_
    have hdest : d.destination p = (step (init.foldl step (d.base p)) last).reverse := by
      rw [destination, hparts, List.foldl_append]
      rfl
    rw [hdest, step] at hplace
    split at hplace
    · rw [← List.dropLast_reverse] at hplace
      exact (List.prefix_append l r).trans (hplace ▸ List.dropLast_prefix _)
    · rw [List.reverse_cons] at hplace
      obtain ⟨r', x, rfl⟩ := (List.eq_nil_or_concat' r).resolve_left hr
      rw [← List.append_assoc] at hplace
      exact ⟨r', (List.append_inj_left' hplace rfl).symm⟩

theorem grows_makeDirectory (hp : p ≠ Path.here) (h : d.makeDirectory p = .ok d') :
    Grows (fun _ => False) d d' := by
  unfold makeDirectory at h
  cases hresolve : d.resolve p with
  | error e => rw [hresolve] at h; cases h
  | ok place =>
    obtain ⟨rfl, hleads⟩ := resolve_eq_ok_iff.mp hresolve
    rw [hresolve] at h
    cases hget : d.top.get? (d.destination p) with
    | some x =>
      simp only [bind, Except.bind, hget] at h
      cases h
    | none =>
      simp only [bind, Except.bind, hget] at h
      obtain rfl := Except.ok.inj h
      have hnothing := sight_eq_nothing_iff.mpr hget
      refine ⟨rfl, grows_put (fun r hr => get?_empty hr) ?_ ?_ (Or.inl ⟨hnothing, rfl⟩)⟩
      · rw [hnothing]
        exact Sight.noConfusion
      · exact fun l r hl hr => hleads.not_file_above hp hl hr

theorem grows_ensureDirectory (hp : p ≠ Path.here) (h : d.ensureDirectory p = .ok d') :
    Grows (fun _ => False) d d' := by
  unfold ensureDirectory at h
  split at h
  · rename_i made hmade
    obtain rfl := Except.ok.inj h
    exact grows_makeDirectory hp hmade
  · split at h
    · obtain rfl := Except.ok.inj h
      exact .refl _ _
    · cases h

theorem grows_ensureDirectories {root : String} {names : List String}
    (h : d.ensureDirectories root names = .ok d') : Grows (fun _ => False) d d' := by
  induction names generalizing d d' with
  | nil =>
    obtain rfl := Except.ok.inj h
    exact .refl _ _
  | cons last above ih =>
    have hp : (⟨root, (last :: above).reverse⟩ : Path) ≠ Path.here := by
      intro heq
      have hnil : (last :: above).reverse = [] := congrArg Path.parts heq
      exact List.cons_ne_nil _ _ (List.reverse_eq_nil_iff.mp hnil)
    unfold ensureDirectories at h
    simp only at h
    split at h
    · cases habove : d.ensureDirectories root above with
      | error e => rw [habove] at h; cases h
      | ok made =>
        rw [habove] at h
        exact (ih habove).trans (grows_ensureDirectory hp h)
    · exact grows_ensureDirectory hp h

/-- Writing a file changes nothing but that file and the directories above it, whether it succeeds
or not; and what has been written can be read. -/
theorem write_cases (hp : p ≠ Path.here) (text : String) :
    Grows (· = d.destination p) d (d.write p text).1 ∧
      ((d.write p text).2 = .ok () → (d.write p text).1.readBytes p = .ok (Utf8.encode text)) := by
  unfold write
  split
  · exact ⟨.refl _ _, nofun⟩
  · rename_i made hmade
    have hgrows : Grows (· = d.destination p) d made :=
      (grows_ensureDirectories hmade).mono fun _ h => h.elim
    split
    · exact ⟨hgrows, nofun⟩
    · rename_i place hresolve
      obtain ⟨rfl, hleads⟩ := resolve_eq_ok_iff.mp hresolve
      split
      · exact ⟨hgrows, nofun⟩
      · rename_i hnot
        have hplace : made.top.sight (made.destination p) ≠ .directory := by
          intro hdirectory
          obtain ⟨entries, hget⟩ := sight_eq_directory_iff.mp hdirectory
          exact hnot entries hget
        have hput : Grows (· = d.destination p) made
            (made.put (made.destination p) (.file (Utf8.encode text))) :=
          ⟨rfl, grows_put (fun r hr => get?_file hr) hplace
            (fun l r hl hr => hleads.not_file_above hp hl hr)
            (Or.inr ⟨hgrows.destination p, _, rfl⟩)⟩
        refine ⟨hgrows.trans hput, fun _ => ?_⟩
        rw [readBytes_eq_ok_iff]
        refine ⟨hput.leads hleads, ?_⟩
        rw [hput.destination, sight_eq_file_iff]
        exact get?_put_self _ _ _

end Disk
end Transplant
