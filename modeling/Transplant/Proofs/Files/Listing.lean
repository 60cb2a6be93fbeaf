import Transplant.Proofs.Migration.Found

/-!
# What a walk through a tree lists

A walk enters every directory but those with ignored names, and lists the files it comes by.  So it
lists a file just if no directory on the way down to it is ignored; the file itself may have any
name.  On a tree with distinct names in every directory it lists every file once.

The order in which a directory lists its entries changes the order of the walk, but not what is at a
place, and so not which places are listed.

* `Discovery.mem_below_iff`: which places a walk lists
* `Discovery.nodup_below`: each of them once
* `FileTree.Reordered`: the same tree with its directories listed in other orders
* `FileTree.Reordered.keeps`: it has the same files at the same places
-/

namespace Transplant

/-- What is found under a name is in the directory. -/
theorem FileTree.Sound.mem_of_lookup {entries : List (String × FileTree)}
    (h : (directory entries).Sound) {name : String} {child : FileTree}
    (hlookup : entries.lookup name = some child) : (name, child) ∈ entries :=
  (Table.mem_entries_iff (t := ⟨entries, (h [] entries rfl).1⟩)).mpr hlookup

namespace Discovery

variable {ignored above : List String}

theorem mem_belowEntries_iff {entries : List (String × FileTree)} {place : List String} :
    place ∈ belowEntries ignored above entries ↔
      ∃ e ∈ entries, (e.2.isDirectory = true → e.1 ∉ ignored) ∧
        place ∈ below ignored (above ++ [e.1]) e.2 := by
  induction entries with
  | nil => simp [belowEntries]
  | cons e rest ih =>
    obtain ⟨name, child⟩ := e
    rw [belowEntries, List.mem_append, ih, List.exists_mem_cons_iff]
    refine or_congr ?_ Iff.rfl
    by_cases hdirectory : child.isDirectory = true
    · by_cases hname : name ∈ ignored <;> simp [hdirectory, hname]
    · simp [hdirectory]

/-- On the way to a file, a first name stands for a directory unless it is the only one. -/
theorem entered_cons_iff {name : String} {child : FileTree} {rest : List String} {content : Bytes}
    (hget : child.get? rest = some (.file content)) :
    (∀ n ∈ (name :: rest).dropLast, n ∉ ignored) ↔
      (child.isDirectory = true → name ∉ ignored) ∧ ∀ n ∈ rest.dropLast, n ∉ ignored := by
  cases rest with
  | nil =>
    obtain rfl := Option.some.inj hget
    simp [FileTree.isDirectory]
  | cons next rest =>
    cases child with
    | file other => cases hget
    | directory entries => simp [FileTree.isDirectory]

/-- **A walk lists a file just if no directory on the way to it is ignored.** -/
theorem mem_below_iff {t : FileTree} (hsound : t.Sound) {names : List String} :
    above ++ names ∈ below ignored above t ↔
      (∃ content, t.get? names = some (.file content)) ∧ ∀ n ∈ names.dropLast, n ∉ ignored := by
  induction names generalizing t above with
  | nil =>
    cases t with
    | file content => simp [below]
    | directory entries =>
      refine iff_of_false (fun hmem => ?_) fun h => nomatch h.1
      rw [List.append_nil] at hmem
      obtain ⟨names, content, hnil, hget, -⟩ := exists_of_mem_below ignored _ above hsound above hmem
      rw [List.self_eq_append_right.mp hnil] at hget
      cases hget
  | cons name rest ih =>
    cases t with
    | file content =>
      refine iff_of_false (fun hmem => ?_) fun h => nomatch h.1
      have hplace : above ++ name :: rest = above := List.mem_singleton.mp hmem
      exact List.cons_ne_nil name rest (List.self_eq_append_right.mp hplace.symm)
    | directory entries =>
      have hchildren : ∀ e ∈ entries, e.2.Sound := fun e he =>
        hsound.get? (hsound.get?_singleton he)
      rw [below, mem_belowEntries_iff, List.append_cons]
      constructor
      · rintro ⟨e, he, hentered, hmem⟩
        -- what is listed below an entry goes on from the name of that entry
        obtain ⟨names, content, hplace, hget, -⟩ :=
          exists_of_mem_below ignored _ _ (hchildren e he) _ hmem
        rw [List.append_assoc, List.append_assoc, List.append_right_inj] at hplace
        obtain ⟨rfl, hrest⟩ := List.cons.inj hplace
        obtain rfl : rest = names := hrest
        have hbelow := ((ih (hchildren e he)).mp hmem).2
        refine ⟨⟨content, ?_⟩, (entered_cons_iff hget).mpr ⟨hentered, hbelow⟩⟩
        rw [← List.singleton_append, FileTree.get?_append, hsound.get?_singleton he,
          Option.bind_some, hget]
      · rintro ⟨⟨content, hget⟩, hentered⟩
        obtain ⟨child, hlookup, hget⟩ := Option.bind_eq_some_iff.mp hget
        have he : (name, child) ∈ entries := hsound.mem_of_lookup hlookup
        obtain ⟨hname, hrest⟩ := (entered_cons_iff hget).mp hentered
        exact ⟨(name, child), he, hname, (ih (hchildren _ he)).mpr ⟨⟨content, hget⟩, hrest⟩⟩

mutual

/-- A walk lists no place twice. -/
theorem nodup_below (ignored : List String) :
    ∀ (t : FileTree) (above : List String), t.Sound → (below ignored above t).Nodup
  | .file _, above, _ => List.pairwise_singleton _ above
  | .directory entries, above, hsound =>
    nodup_belowEntries ignored entries above (hsound [] entries rfl).1 fun _ he =>
      hsound.get? (hsound.get?_singleton he)

theorem nodup_belowEntries (ignored : List String) :
    ∀ (entries : List (String × FileTree)) (above : List String), (entries.map (·.1)).Nodup →
      (∀ e ∈ entries, e.2.Sound) → (belowEntries ignored above entries).Nodup
  | [], _, _, _ => List.nodup_nil
  | (name, child) :: rest, above, hnames, hsound => by
    obtain ⟨hchild, hrest⟩ := List.forall_mem_cons.mp hsound
    obtain ⟨hname, hnames⟩ := List.nodup_cons.mp hnames
    rw [belowEntries, List.nodup_append]
    refine ⟨?_, nodup_belowEntries ignored rest above hnames hrest, ?_⟩
    · split
      · exact List.nodup_nil
      · exact nodup_below ignored child (above ++ [name]) hchild
    · -- places below different entries go on with different names
      rintro place hplace other hother rfl
      split at hplace
      · cases hplace
      · obtain ⟨names, -, hfirst, -⟩ := exists_of_mem_below ignored child _ hchild place hplace
        obtain ⟨e, he, names', -, hsecond, -⟩ :=
          exists_of_mem_belowEntries ignored rest above hrest place hother
        rw [hfirst, List.append_assoc, List.append_right_inj, List.singleton_append] at hsecond
        obtain ⟨rfl, -⟩ := List.cons.inj hsecond
        exact hname (List.mem_map.mpr ⟨e, he, rfl⟩)

end

end Discovery

namespace FileTree

/-- The same tree with its directories listed in other orders. -/
inductive Reordered : FileTree → FileTree → Prop
  | refl (t : FileTree) : Reordered t t
  /-- A directory lists its entries in another order. -/
  | perm {entries entries' : List (String × FileTree)} (h : entries.Perm entries') :
    Reordered (directory entries) (directory entries')
  /-- One of the entries of a directory is reordered. -/
  | entry {l r : List (String × FileTree)} (name : String) {t t' : FileTree}
    (h : Reordered t t') :
    Reordered (directory (l ++ (name, t) :: r)) (directory (l ++ (name, t') :: r))
  | trans {t t' t'' : FileTree} (h : Reordered t t') (h' : Reordered t' t'') : Reordered t t''

theorem lookup_perm {entries entries' : List (String × FileTree)} (h : entries.Perm entries')
    (hnodup : (entries.map (·.1)).Nodup) (name : String) :
    entries'.lookup name = entries.lookup name := by
  have hnodup' : (entries'.map (·.1)).Nodup := (h.map _).nodup_iff.mp hnodup
  refine Option.ext fun child => ?_
  have hmem : (name, child) ∈ entries ↔ entries.lookup name = some child :=
    Table.mem_entries_iff (t := ⟨entries, hnodup⟩)
  have hmem' : (name, child) ∈ entries' ↔ entries'.lookup name = some child :=
    Table.mem_entries_iff (t := ⟨entries', hnodup'⟩)
  rw [← hmem, ← hmem', h.mem_iff]

/-- **The same files are at the same places, whatever the order of the entries.** -/
theorem Reordered.keeps {t t' : FileTree} (h : Reordered t t') (hsound : t.Sound) :
    t'.Sound ∧ ∀ place content, t'.get? place = some (file content) ↔
      t.get? place = some (file content) := by
  induction h with
  | refl t => exact ⟨hsound, fun _ _ => Iff.rfl⟩
  | @perm entries entries' h =>
    have hnodup := (hsound [] entries rfl).1
    refine ⟨sound_directory ((h.map _).nodup_iff.mp hnodup) fun e he => ?_, fun place content => ?_⟩
    · have he : e ∈ entries := h.mem_iff.mpr he
      exact ⟨(hsound [] entries rfl).2 e he, hsound.get? (hsound.get?_singleton he)⟩
    · cases place with
      | nil => exact iff_of_false nofun nofun
      | cons name rest =>
        show (entries'.lookup name).bind _ = _ ↔ (entries.lookup name).bind _ = _
        rw [lookup_perm h hnodup]
  | @entry l r name t t' h ih =>
    have hentries : ∀ e ∈ l ++ (name, t) :: r, Proper e.1 ∧ e.2.Sound := fun e he =>
      ⟨(hsound [] _ rfl).2 e he, hsound.get? (hsound.get?_singleton he)⟩
    rw [List.forall_mem_append, List.forall_mem_cons] at hentries
    obtain ⟨hl, ⟨hname, ht⟩, hr⟩ := hentries
    obtain ⟨ht', hsame⟩ := ih ht
    refine ⟨sound_directory ?_ ?_, fun place content => ?_⟩
    · have hnodup := (hsound [] _ rfl).1
      rw [List.map_append, List.map_cons] at hnodup ⊢
      exact hnodup
    · rw [List.forall_mem_append, List.forall_mem_cons]
      exact ⟨hl, ⟨hname, ht'⟩, hr⟩
    · cases place with
      | nil => exact iff_of_false nofun nofun
      | cons n rest =>
        show ((l ++ (name, t') :: r).lookup n).bind _ = _ ↔ ((l ++ (name, t) :: r).lookup n).bind _ = _
        rw [List.lookup_append, List.lookup_append]
        cases l.lookup n with
        | some child => exact Iff.rfl
        | none =>
          rw [Option.none_or, Option.none_or, List.lookup_cons, List.lookup_cons]
          by_cases hn : n = name
          · rw [beq_iff_eq.mpr hn]
            exact hsame rest content
          · rw [beq_false_of_ne hn]
  | trans h h' ih ih' =>
    obtain ⟨hsound', hsame⟩ := ih hsound
    obtain ⟨hsound'', hsame'⟩ := ih' hsound'
    exact ⟨hsound'', fun place content => (hsame' place content).trans (hsame place content)⟩

end FileTree
end Transplant
