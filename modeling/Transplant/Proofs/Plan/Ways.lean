import Transplant.Proofs.Plan.Outputs
import Transplant.Proofs.Plan.Siblings

/-!
# Ways between the files of a batch

A way from one directory to a place is what they do not have in common: up from the one, down to the
other.  It leads to the place if going up undoes names only, and that may fail.  A directory that
begins with `..` cannot be left by one more `..`, as the way would have to.

So the names have to be in the part that the two do not share, and nowhere else
(`normalize_join_way`).  A batch may well go to a directory outside, since all its files share it.
The files themselves must not lead up.

## Places that are not well formed

A new name that no one has checked can bring slashes into a component of a place.  The text of such
a place is still relative and still leads on from the directory in front of it, which is all that is
asked of it here.  `Path.Loose` keeps just that of a well-formed path.

* `Batch.normalize_join_way`: the way from a directory to a place leads there
* `Path.LeadsDown`: a file below a directory
* `Batch.normalize_join_below`: a way below a directory leads there from outside as well
* `Batch.ways_lead_there`: what is written for the files of a batch, and for a test
-/

namespace Transplant

namespace Text

theorem splitAll_join_flatMap {parts : List String} (h : parts ≠ []) :
    splitAll '/' (join "/" parts) = parts.flatMap (splitAll '/') := by
  induction parts with
  | nil => exact absurd rfl h
  | cons p rest ih =>
    rcases rest with _ | ⟨q, rest⟩
    · simp [join]
    · rw [join_cons_cons, splitAll_append_slash, ih (List.cons_ne_nil q rest)]
      exact (List.flatMap_cons ..).symm

end Text

namespace Lexical

/-! ## What two places share -/

theorem diverge_append (common l m : List String) :
    diverge (common ++ l) (common ++ m) = diverge l m := by
  induction common with
  | nil => rfl
  | cons p rest ih => rw [List.cons_append, List.cons_append, diverge, if_pos rfl, ih]

theorem mem_of_mem_up {l m : List String} {p : String} (h : p ∈ (diverge l m).2) : p ∈ m := by
  obtain ⟨common, -, hm⟩ := diverge_spec l m
  rw [hm]
  exact List.mem_append_right _ h

/-- **A journey goes back by names only**: what it leaves of the place that it starts from has no
`..` in it. -/
theorem travel_leaves (absolute : Bool) {done : List String} (hdone : ∀ q ∈ done, q ≠ "" ∧ q ≠ ".")
    (l : List String) :
    ∃ front back rest, done = front ++ back ∧
      (travel absolute done.reverse l).reverse = front ++ rest ∧ ∀ n ∈ back, Named n := by
  induction l using List.reverseRecOn with
  | nil => exact ⟨done, [], [], by simp, by simp, nofun⟩
  | append_singleton l p ih =>
    obtain ⟨front, back, rest, hsplit, hplace, hback⟩ := ih
    have hend : travel absolute done.reverse (l ++ [p]) =
        step absolute (front ++ rest).reverse p := by
      rw [travel_append, ← hplace, List.reverse_reverse]
      rfl
    rw [hend]
    by_cases hblank : p = "" ∨ p = "."
    · refine ⟨front, back, rest, hsplit, ?_, hback⟩
      rcases hblank with rfl | rfl <;> simp
    rw [not_or] at hblank
    by_cases hup : p = ".."
    · subst hup
      rcases List.eq_nil_or_concat rest with rfl | ⟨rest, last, rfl⟩
      · rcases List.eq_nil_or_concat front with rfl | ⟨front, last, rfl⟩
        · -- nothing is left to go back from
          exact ⟨[], back, _, hsplit, (List.nil_append _).symm, hback⟩
        · by_cases hlast : last = ".."
          · refine ⟨front.concat last, back, [".."], hsplit, ?_, hback⟩
            simp [step, hlast]
          · -- one more name of the start is left
            have hmem : last ∈ done := by simp [hsplit]
            refine ⟨front, last :: back, [], by simp [hsplit], by simp [step, hlast], ?_⟩
            intro n hn
            rcases List.mem_cons.mp hn with rfl | hn
            · exact ⟨(hdone n hmem).1, (hdone n hmem).2, hlast⟩
            · exact hback n hn
      · by_cases hlast : last = ".."
        · exact ⟨front, back, rest.concat last ++ [".."], hsplit, by simp [step, hlast], hback⟩
        · exact ⟨front, back, rest, hsplit, by simp [step, hlast], hback⟩
    · have hnamed : Named p := ⟨hblank.1, hblank.2, hup⟩
      refine ⟨front, back, rest ++ [p], hsplit, ?_, hback⟩
      rw [step_named hnamed, List.reverse_cons, List.reverse_reverse, List.append_assoc]

theorem travel_self (s : String) :
    travel (rootOf s ≠ "") [] (components s) = (components s).reverse := by
  rw [components_eq, travel_travel, List.reverse_reverse]

/-- From a directory, the way leads to a place with the same root, if it goes back by names only. -/
theorem travel_way_components {place start : String} (hroot : rootOf place = rootOf start)
    (hup : ∀ n ∈ (diverge (components place) (components start)).2, Named n) :
    travel (rootOf start ≠ "") (components start).reverse
      (way (components place) (components start)) = (components place).reverse := by
  obtain ⟨common, hplace, hstart⟩ := diverge_spec (components place) (components start)
  have hcommon : travel (rootOf start ≠ "") [] common = common.reverse := by
    have hself := travel_self start
    rw [hstart, travel_append, travel_named hup, List.reverse_append,
      List.append_cancel_left_eq] at hself
    exact hself
  calc travel (rootOf start ≠ "") (components start).reverse
        (way (components place) (components start))
      = travel (rootOf start ≠ "") (travel (rootOf start ≠ "")
          ((diverge (components place) (components start)).2.reverse ++ common.reverse)
          ((diverge (components place) (components start)).2.map fun _ => ".."))
          (diverge (components place) (components start)).1 := by
        rw [way, travel_append, ← List.reverse_append, ← hstart]
    _ = travel (rootOf start ≠ "") [] (components place) := by
        rw [travel_up hup, ← hcommon, ← travel_append, ← hplace]
    _ = (components place).reverse := by rw [← hroot, travel_self]

theorem relative_congr {place place' start start' : String}
    (h : diverge (components place) (components start) =
      diverge (components place') (components start')) :
    relative place start = relative place' start' := by
  unfold relative
  rw [h]

theorem named_of_mem_components {s n : String} (h : n ∈ components s) (hup : n ≠ "..") : Named n :=
  ⟨(mem_components h).1, (mem_components h).2.1, hup⟩

/-- A relative text without `..` leads down by the names in it. -/
theorem travel_down {s : String} (hroot : rootOf s = "") (h : ".." ∉ Text.splitAll '/' s) :
    (∀ n ∈ components s, Named n) ∧ ∀ absolute start,
      travel absolute start (Text.splitAll '/' s) = (components s).reverse ++ start := by
  have hnamed : ∀ n ∈ components s, Named n := by
    refine fun n hn => named_of_mem_components hn ?_
    rintro rfl
    rw [components_eq, List.mem_reverse] at hn
    exact h ((travel_mem hn).resolve_left List.not_mem_nil).1
  exact ⟨hnamed, fun absolute start => by rw [← travel_components hroot, travel_named hnamed]⟩

end Lexical

namespace Path

open Lexical

/-! ## Texts of paths that may be ill formed -/

/-- A path with one of the three roots, whose components do not begin with a slash. -/
structure Loose (p : Path) : Prop where
  root : p.root = "" ∨ p.root = "/" ∨ p.root = "//"
  parts : ∀ q ∈ p.parts, q ≠ "" ∧ Unrooted q

variable {p q : Path}

theorem unrooted_of_notMem {s : String} (h : '/' ∉ s.toList) : Unrooted s :=
  fun hhead => h (List.mem_of_head? hhead)

theorem Sound.loose (h : p.Sound) : p.Loose :=
  ⟨h.root, fun r hr => ⟨(h.parts r hr).1, unrooted_of_notMem (h.parts r hr).2⟩⟩

theorem Loose.rootOf_root (h : p.Loose) : rootOf p.root = p.root := by
  rcases h.root with h | h | h <;> rw [h] <;> decide

theorem loose_append (hp : p.Loose) (hq : q.Loose) : (p ++ q).Loose := by
  by_cases h : q.root = ""
  · rw [append_of_relative h]
    refine ⟨hp.root, fun r hr => ?_⟩
    rcases List.mem_append.mp hr with hr | hr
    · exact hp.parts r hr
    · exact hq.parts r hr
  · rwa [show p ++ q = q from if_neg h]

theorem unrooted_join_of_parts {parts : List String} (h : ∀ q ∈ parts, q ≠ "" ∧ Unrooted q) :
    Unrooted (Text.join "/" parts) := by
  rcases parts with _ | ⟨first, _ | ⟨second, rest⟩⟩
  · exact nofun
  · exact (h first List.mem_cons_self).2
  · obtain ⟨hne, hunrooted⟩ := h first List.mem_cons_self
    have hnil : first.toList ≠ [] := fun h0 => hne (String.toList_eq_nil_iff.mp h0)
    rw [Text.join_cons_cons, Unrooted, String.toList_append, String.toList_append,
      List.append_assoc, List.head?_append, List.head?_eq_some_head hnil, Option.some_or]
    rwa [Unrooted, List.head?_eq_some_head hnil] at hunrooted

theorem rootOf_toString_of_loose (h : p.Loose) : rootOf p.toString = p.root := by
  obtain ⟨hroot, -, htext⟩ | ⟨-, htext⟩ := p.toString_cases
  · rw [htext, hroot]
    decide
  · rw [htext, rootOf_append (unrooted_join_of_parts h.parts), h.rootOf_root]

theorem travel_toString_of_loose (h : p.Loose) (absolute : Bool) (start : List String) :
    travel absolute start (Text.splitAll '/' p.toString) =
      travel absolute start (p.parts.flatMap (Text.splitAll '/')) := by
  obtain ⟨-, hnil, htext⟩ | ⟨-, htext⟩ := p.toString_cases
  · rw [htext, hnil, Text.splitAll_of_notMem (by decide), travel_cons, step_here]
    rfl
  · rw [htext, ← h.rootOf_root, travel_root]
    by_cases hnil : p.parts = []
    · rw [hnil]
      exact step_empty absolute start
    · rw [Text.splitAll_join_flatMap hnil]

/-- Below a well-formed directory, the text of a path leads on as it does by itself. -/
theorem travel_toString_append (hp : p.Sound) (hq : q.Loose) (hroot : q.root = "")
    (absolute : Bool) (start : List String) :
    travel absolute start (Text.splitAll '/' (p ++ q).toString) =
      travel absolute (travel absolute start p.parts) (Text.splitAll '/' q.toString) := by
  have hparts : p.parts.flatMap (Text.splitAll '/') = p.parts := by
    have hsingle : ∀ r ∈ p.parts, Text.splitAll '/' r = [r] := fun r hr =>
      Text.splitAll_of_notMem (hp.parts r hr).2
    rw [List.flatMap_def, List.map_congr_left hsingle, ← List.flatMap_def, List.flatMap_singleton']
  rw [travel_toString_of_loose (loose_append hp.loose hq), travel_toString_of_loose hq,
    append_of_relative hroot, List.flatMap_append, hparts, travel_append]

/-- A place below some directory: a relative path in whose text no component leads up. -/
structure Downward (p : Path) : Prop where
  root : p.root = ""
  down : ".." ∉ Text.splitAll '/' p.toString

instance (p : Path) : Decidable p.Downward :=
  decidable_of_iff (p.root = "" ∧ ".." ∉ Text.splitAll '/' p.toString)
    ⟨fun h => ⟨h.1, h.2⟩, fun h => ⟨h.root, h.down⟩⟩

/-! ## Files below a directory -/

/-- A path is below a directory: there is a way down to it, and no component of that leads up. -/
structure LeadsDown (start p way : Path) : Prop where
  relative : p.relativeTo start = .ok way
  nonempty : way.parts ≠ []
  down : ".." ∉ way.parts

variable {start way : Path}

theorem LeadsDown.eq (h : start.LeadsDown p way) : p = start ++ way :=
  (relativeTo_cases h.relative).1

theorem LeadsDown.root (h : start.LeadsDown p way) : way.root = "" :=
  (relativeTo_cases h.relative).2

theorem LeadsDown.parts (h : start.LeadsDown p way) : p.parts = start.parts ++ way.parts := by
  rw [h.eq, append_of_relative h.root]

theorem LeadsDown.parts_ne_nil (h : start.LeadsDown p way) : p.parts ≠ [] := by
  rw [h.parts]
  exact List.append_ne_nil_of_right_ne_nil _ h.nonempty

theorem LeadsDown.root_eq (h : start.LeadsDown p way) : p.root = start.root := by
  rw [h.eq, append_of_relative h.root]

theorem LeadsDown.sound (h : start.LeadsDown p way) (hp : p.Sound) : start.Sound ∧ way.Sound := by
  refine ⟨⟨h.root_eq ▸ hp.root, fun q hq => ?_⟩, Or.inl h.root, fun q hq => ?_⟩
  · exact hp.parts q (h.parts ▸ List.mem_append_left _ hq)
  · exact hp.parts q (h.parts ▸ List.mem_append_right _ hq)

/-- The directory of a file below another directory: that directory, and the names behind it. -/
theorem LeadsDown.components_parent (h : start.LeadsDown p way) (hp : p.Sound) :
    (∀ n ∈ components way.parent.toString, Named n) ∧
      rootOf (Lexical.parent p.toString) = start.root ∧
      components (Lexical.parent p.toString) =
        (travel (start.root ≠ "") [] start.parts).reverse ++ components way.parent.toString := by
  have hparent := sound_parent (h.sound hp).2
  have hroot : rootOf way.parent.toString = "" := (rootOf_toString hparent).trans h.root
  have hnamed : ∀ n ∈ components way.parent.toString, Named n := by
    refine fun n hn => named_of_mem_components hn ?_
    rintro rfl
    rw [components_toString hparent, List.mem_reverse] at hn
    exact h.down (List.dropLast_subset _ ((travel_mem hn).resolve_left List.not_mem_nil).1)
  refine ⟨hnamed, (rootOf_parent_toString hp h.parts_ne_nil).trans h.root_eq, ?_⟩
  rw [components_parent_toString hp h.parts_ne_nil, h.root_eq, h.parts,
    List.dropLast_append_of_ne_nil h.nonempty, travel_append,
    show way.parts.dropLast = way.parent.parts from rfl, ← travel_toString hparent,
    ← travel_components hroot, travel_named hnamed, List.reverse_append, List.reverse_reverse]

/-- The directory of a file, as the path arithmetic has it and as it is written. -/
theorem LeadsDown.components_way (h : start.LeadsDown p way) (hp : p.Sound) :
    rootOf (Lexical.parent way.toString) = "" ∧
      components (Lexical.parent way.toString) = components way.parent.toString := by
  have hway := (h.sound hp).2
  refine ⟨(rootOf_parent_toString hway h.nonempty).trans h.root, ?_⟩
  rw [components_parent_toString hway h.nonempty, components_toString (sound_parent hway)]
  rfl

end Path

namespace Batch

open Lexical

variable {b : Batch}

/-! ## Ways that lead there -/

/-- **The way from a directory leads to a place**, in any spelling that is normalized alike. -/
theorem normalize_join_way {start place r : String} (hroot : rootOf place = rootOf start)
    (hup : ∀ n ∈ (diverge (components place) (components start)).2, Named n)
    (hr : normalize r = normalize (dotted (relative place start))) :
    normalize (join start r) = normalize place := by
  have hunrooted : Unrooted r :=
    unrooted_of_rootOf ((normalize_eq_iff.mp hr).1.trans (rootOf_dotted _ _))
  rw [normalize_eq_iff, rootOf_join hunrooted]
  refine ⟨hroot.symm, ?_⟩
  rw [components_join hunrooted, travel_eq_of_normalize_eq hr (rootOf_dotted _ _), travel_dotted,
    travel_way_components hroot hup, List.reverse_reverse]

/-- **Below a directory, a way leads to its place from outside as well.** -/
theorem normalize_join_below {root file own place : Path} {r : String}
    (hfile : root.LeadsDown file own) (hsound : file.Sound) (hplace : place.Loose)
    (hdown : place.Downward)
    (hr : normalize r = normalize (dotted (relative place.toString own.parent.toString))) :
    normalize (join (parent file.toString) r) = normalize (root ++ place).toString := by
  obtain ⟨hnamed, hstartroot, hstart⟩ := hfile.components_parent hsound
  have hrootsound := (hfile.sound hsound).1
  have htext : rootOf place.toString = "" :=
    (Path.rootOf_toString_of_loose hplace).trans hdown.root
  have hwhole : rootOf (root ++ place).toString = root.root := by
    rw [Path.rootOf_toString_of_loose (Path.loose_append hrootsound.loose hplace),
      Path.append_of_relative hdown.root]
  have hcomponents : components (root ++ place).toString =
      (travel (root.root ≠ "") [] root.parts).reverse ++ components place.toString := by
    rw [components_eq, hwhole, Path.travel_toString_append hrootsound hplace hdown.root,
      (travel_down htext hdown.down).2, List.reverse_append, List.reverse_reverse]
  have hway : relative (root ++ place).toString (parent file.toString) =
      relative place.toString own.parent.toString :=
    relative_congr (by rw [hcomponents, hstart, diverge_append])
  rw [← hway] at hr
  refine normalize_join_way (hwhole.trans hstartroot.symm) (fun n hn => ?_) hr
  rw [hcomponents, hstart, diverge_append] at hn
  exact hnamed n (mem_of_mem_up hn)

/-! ## Places of files -/

theorem loose_targetOf {source : String} {component : Option String} {place : Path} {given : Bool}
    (h : b.targetOf source component = .ok (place, given)) : place.Loose := by
  unfold targetOf at h
  split at h
  · obtain ⟨rfl, -⟩ := Prod.mk.inj (Except.ok.inj h)
    exact (Path.sound_ofString _).loose
  · dsimp only at h
    generalize hname : _ ++ (Path.ofString source).suffix = name at h
    unfold Path.withName at h
    split at h
    · cases h
    · dsimp only at h
      split at h
      · cases h
      · rename_i hvalid
        simp only [Bool.or_eq_true, decide_eq_true_eq, not_or, Decidable.not_not] at hvalid
        obtain ⟨rfl, -⟩ := Prod.mk.inj (Except.ok.inj h)
        have hsource := (Path.sound_ofString source).loose
        refine ⟨hsource.root, fun q hq => ?_⟩
        rcases List.mem_append.mp hq with hq | hq
        · exact hsource.parts q (List.dropLast_subset _ hq)
        · obtain rfl := List.mem_singleton.mp hq
          exact ⟨hvalid.1.1.1, unrooted_of_rootOf hvalid.1.2⟩

theorem loose_spelledPath {place : Path} {form : Form} (h : place.Loose)
    (hform : form = .extension → place.parts ≠ []) : (spelledPath place form).Loose := by
  have hup : ∀ q ∈ place.parts.dropLast, q ≠ "" ∧ Unrooted q := fun q hq =>
    h.parts q (List.dropLast_subset _ hq)
  cases form with
  | exact => exact h
  | index => exact ⟨h.root, hup⟩
  | extension =>
    have hname : place.name ∈ place.parts := by
      rw [← Path.parts_eq (hform rfl)]
      simp
    obtain ⟨hne, hunrooted⟩ := h.parts _ hname
    refine ⟨h.root, fun q hq => ?_⟩
    rcases List.mem_append.mp hq with hq | hq
    · exact hup q hq
    · obtain rfl := List.mem_singleton.mp hq
      have hboth := place.stem_append_suffix
      have hstem : place.stem ≠ "" := by
        by_cases hsuffix : place.suffix = ""
        · rw [hsuffix, String.append_empty] at hboth
          rwa [hboth]
        · exact Path.stem_ne_empty hsuffix
      refine ⟨hstem, ?_⟩
      have hnil : place.stem.toList ≠ [] := fun h0 => hstem (String.toList_eq_nil_iff.mp h0)
      rw [← hboth, Unrooted, String.toList_append, List.head?_append,
        List.head?_eq_some_head hnil, Option.some_or] at hunrooted
      rwa [Unrooted, List.head?_eq_some_head hnil]

/-! ## What is written -/

/-- The importer writes a specifier that is normalized like the way to the place of the file, unless
an ending is to be left out of a place that has no name. -/
theorem siblingSpecifier_cases {p : Plan} {own found : Path} {s : Sibling} {given : Bool}
    (specifier : String) (htarget : b.targetOf s.path none = .ok (found, given))
    (hroot : found.root = "") (hown : p.targetPath.relativeTo b.root = .ok own) :
    (∃ r, b.siblingSpecifier p specifier s = .ok r ∧ (s.form = .extension → found.parts ≠ []) ∧
      normalize r = normalize
        (dotted (relative (spelledPath found s.form).toString own.parent.toString))) ∨
    (s.form = .extension ∧ found.parts = [] ∧
      b.siblingSpecifier p specifier s = .error (.emptyName false ".")) := by
  by_cases hnone : s.form = .extension ∧ found.parts = []
  · refine Or.inr ⟨hnone.1, hnone.2, ?_⟩
    obtain ⟨root, parts⟩ := found
    obtain rfl : root = "" := hroot
    obtain rfl : parts = [] := hnone.2
    simp only [siblingSpecifier, htarget, hown, hnone.1, bind, Except.bind]
    rfl
  · have hparts : s.form = .extension → found.parts ≠ [] := fun hform hnil => hnone ⟨hform, hnil⟩
    have hspelled : spelled found s.form = .ok (spelledPath found s.form).toString := by
      cases hform : s.form with
      | exact => rfl
      | index => rfl
      | extension =>
        refine spelled_eq ?_ .extension
        have hne := hparts hform
        have hmem : found.name ∈ found.parts := by
          rw [← Path.parts_eq hne]
          simp
        exact ((loose_targetOf htarget).parts _ hmem).1
    refine Or.inl ?_
    let r := dotted (relative (spelledPath found s.form).toString own.parent.toString)
    refine ⟨if normalize r = normalize specifier then specifier else r, ?_, hparts, ?_⟩
    · simp only [siblingSpecifier, htarget, hown, hspelled, bind, Except.bind]
      rfl
    · split
      · rename_i h
        exact h.symm
      · rfl

/-- From the directory of a file below the root, a way leads to its relative place. -/
theorem normalize_join_own {root file own : Path} {place r : String}
    (hfile : root.LeadsDown file own) (hsound : file.Sound) (hroot : rootOf place = "")
    (hr : normalize r = normalize (dotted (relative place own.parent.toString))) :
    normalize (join (parent own.toString) r) = normalize place := by
  obtain ⟨hstartroot, hstart⟩ := hfile.components_way hsound
  have hway : relative place (parent own.toString) = relative place own.parent.toString :=
    relative_congr (by rw [hstart])
  rw [← hway] at hr
  refine normalize_join_way (hroot.trans hstartroot.symm) (fun n hn => ?_) hr
  rw [hstart] at hn
  exact (hfile.components_parent hsound).1 n (mem_of_mem_up hn)

/-- Where a file below a directory leads without its ending: from that directory on. -/
theorem components_extension {root file own : Path} (hfile : root.LeadsDown file own)
    (hsound : file.Sound) :
    rootOf (spelledPath file .extension).toString = root.root ∧
      components (spelledPath file .extension).toString =
        (travel (root.root ≠ "") (travel (root.root ≠ "") [] root.parts)
          (own.parts.dropLast ++ [file.stem])).reverse := by
  have hparts := hfile.parts_ne_nil
  have hplace : (spelledPath file .extension).Sound := by
    refine ⟨hsound.root, fun q hq => ?_⟩
    rcases List.mem_append.mp hq with hq' | hq'
    · exact hsound.parts q (List.dropLast_subset _ hq')
    · refine ⟨((loose_spelledPath hsound.loose fun _ => hparts).parts q hq).1, fun hslash => ?_⟩
      rw [List.mem_singleton.mp hq'] at hslash
      exact (hsound.parts _ (Path.name_mem (Path.name_ne_empty hsound hparts))).2
        (Path.mem_name_of_mem_stem hslash)
  refine ⟨(Path.rootOf_toString hplace).trans hfile.root_eq, ?_⟩
  rw [Path.components_toString hplace, ← travel_append, ← List.append_assoc, spelledPath,
    hfile.parts, List.dropLast_append_of_ne_nil hfile.nonempty, hfile.root_eq]

/-- The way from a test to a file below the same directory leads to the file without its ending. -/
theorem normalize_join_test {root file own test testOwn : Path} {r : String}
    (hfile : root.LeadsDown file own) (hsound : file.Sound) (htest : root.LeadsDown test testOwn)
    (htestSound : test.Sound)
    (hr : normalize r = normalize
      (dotted (relative (spelledPath file .extension).toString test.parent.toString))) :
    normalize (join (parent test.toString) r) =
      normalize (spelledPath file .extension).toString := by
  obtain ⟨hnamed, hstartroot, hstart⟩ := htest.components_parent htestSound
  obtain ⟨hplaceroot, hcomponents⟩ := components_extension hfile hsound
  -- both come from the root, and a file leaves names of it at most
  have hdone : ∀ q ∈ (travel (root.root ≠ "") [] root.parts).reverse, q ≠ "" ∧ q ≠ "." := by
    intro q hq
    exact ((travel_mem (List.mem_reverse.mp hq)).resolve_left List.not_mem_nil).2
  obtain ⟨front, back, rest, hsplit, hleft, hback⟩ := travel_leaves (root.root ≠ "") hdone
    (own.parts.dropLast ++ [file.stem])
  rw [List.reverse_reverse, ← hcomponents] at hleft
  rw [hsplit, List.append_assoc] at hstart
  have hdirectory : components (parent test.toString) = components test.parent.toString := by
    rw [Path.components_parent_toString htestSound htest.parts_ne_nil,
      Path.components_toString (Path.sound_parent htestSound)]
    rfl
  have hway : relative (spelledPath file .extension).toString (parent test.toString) =
      relative (spelledPath file .extension).toString test.parent.toString :=
    relative_congr (by rw [hdirectory])
  rw [← hway] at hr
  refine normalize_join_way (hplaceroot.trans hstartroot.symm) (fun n hn => ?_) hr
  rw [hleft, hstart, diverge_append] at hn
  rcases List.mem_append.mp (mem_of_mem_up hn) with hn | hn
  · exact hback n hn
  · exact hnamed n hn

theorem sound_testPath {p : Plan} (h : b.root.Sound) : (b.testPath p).Sound :=
  Path.sound_append (Path.sound_append h (Path.sound_ofString _)) (Path.sound_ofString _)

/-- **What is written leads there.**  Let the file of a plan be below the root of the batch.

A specifier in it that names some file of the batch becomes a specifier that leads, from the new
directory of the importing file, to the new place of the other one: to the file, to the file without
its ending, or to its directory, as the specifier was meant.  This holds of specifiers that stay as
they are too.  There is none if a place without a name would have to be named without its ending.

What the test of the component imports is the file of the plan without its ending. -/
theorem ways_lead_there {p : Plan} {own : Path} (hsound : p.targetPath.Sound)
    (hown : b.root.LeadsDown p.targetPath own) :
    (∀ specifier s found given, b.targetOf s.path none = .ok (found, given) → found.root = "" →
      (∃ r, b.siblingSpecifier p specifier s = .ok r ∧
        normalize (join (parent own.toString) r) =
          normalize (spelledPath found s.form).toString) ∨
      (s.form = .extension ∧ found.parts = [] ∧
        b.siblingSpecifier p specifier s = .error (.emptyName false "."))) ∧
    ∀ test, b.root.LeadsDown (b.testPath p) test → ∃ r, b.testImport p = .ok r ∧
      normalize (join (parent (b.testPath p).toString) r) =
        normalize (spelledPath p.targetPath .extension).toString := by
  constructor
  · intro specifier s found given htarget hroot
    obtain ⟨r, hr, hparts, hnormal⟩ | hnone :=
      siblingSpecifier_cases specifier htarget hroot hown.relative
    · have hloose := loose_spelledPath (loose_targetOf htarget) hparts
      have hplace : rootOf (spelledPath found s.form).toString = "" := by
        rw [Path.rootOf_toString_of_loose hloose]
        cases s.form <;> exact hroot
      exact Or.inl ⟨r, hr, normalize_join_own hown hsound hplace hnormal⟩
    · exact Or.inr hnone
  · intro test htest
    have hname : p.targetPath.name ≠ "" := Path.name_ne_empty hsound hown.parts_ne_nil
    refine ⟨_, by rw [testImport, Path.withoutSuffix, if_neg hname]; rfl, ?_⟩
    exact normalize_join_test hown hsound htest (sound_testPath (hown.sound hsound).1) rfl

/-! ### A page and a button with a new name -/

/-- A page and a button in two directories.  The button gets a new name, and everything goes to a
directory outside. -/
def pages : Batch where
  naming := { renames := Table.empty.put "Button" "ActionButton" }
  targetDir := Path.ofString "../out"
  files := ["pages/Home.jsx", "ui/Button.jsx"]

/-- The component of the page. -/
def home : Descriptor := { name := "Home", sourcePath := "pages/Home.jsx" }

/-- The plan of the page. -/
def homePlan : Plan where
  descriptor := home
  targetPath := pages.root ++ Path.ofString "pages/Home.jsx"
  renames := Table.empty
  rules := []
  pathOverridden := false

/-- An import with superfluous components, and the import in the test, lead to the new places. -/
theorem home_ways_lead_there :
    pages.plan home = .ok homePlan ∧
    pages.sibling? home.sourcePath "../ui//./Button" = some ⟨"ui/Button.jsx", .extension⟩ ∧
    (∃ r, pages.siblingSpecifier homePlan "../ui//./Button" ⟨"ui/Button.jsx", .extension⟩ = .ok r ∧
      normalize (join "pages" r) = "ui/ActionButton") ∧
    ∃ r, pages.testImport homePlan = .ok r ∧
      normalize (join "../out/src/components_migrated_from_source/__tests__" r) =
        "../out/src/components_migrated_from_source/pages/Home" := by
  have hsound : homePlan.targetPath.Sound := ⟨Or.inl (by decide), by decide⟩
  have hown : pages.root.LeadsDown homePlan.targetPath ⟨"", ["pages", "Home.jsx"]⟩ :=
    ⟨by decide, by decide, by decide⟩
  have htest : pages.root.LeadsDown (pages.testPath homePlan)
      ⟨"", ["__tests__", "Home.test.jsx"]⟩ := ⟨by decide +kernel, by decide, by decide⟩
  obtain ⟨hsiblings, htests⟩ := ways_lead_there hsound hown
  refine ⟨by decide +kernel, by decide +kernel, ?_, ?_⟩
  · obtain ⟨r, hr, hleads⟩ | ⟨-, hnone, -⟩ := hsiblings "../ui//./Button"
      ⟨"ui/Button.jsx", .extension⟩ ⟨"", ["ui", "ActionButton.jsx"]⟩ false (by decide +kernel) rfl
    · exact ⟨r, hr, hleads.trans (by decide +kernel)⟩
    · cases hnone
  · obtain ⟨r, hr, hleads⟩ := htests _ htest
    exact ⟨r, hr, hleads.trans (by decide)⟩

end Batch
end Transplant
