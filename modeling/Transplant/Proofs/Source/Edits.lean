import Transplant.Proofs.Adapt.Reading
import Mathlib.Data.List.Nodup
import Mathlib.Data.List.Pairwise

/-!
# Edits that are made together

The edits of a source are sorted, each is compared with the one before it, and the new bytes are put
together in one go.  Three things have to be checked against the plain idea of making the edits one
at a time.

* That no edit begins before the *one before it* ends is enough: in order, no edit begins before
  *any* earlier one ends (`Edit.overlapFrom?_eq_none_iff`).
* The last edit comes first when they are made one at a time, so each of them still finds its place:
  what is in front of an edit is not touched by those behind it (`Edit.take_makeAll`).
* Sorting leaves nothing to chance.  Two edits that do not overlap and begin and end at the same
  places are insertions, so without two of these at one offset the order of the list does not matter
  (`Edit.inOrder_perm`).

`Source.apply_splices` says all this of a source.

* `Edit.Fits`: an edit that lies in a source
* `Edit.make`, `Edit.makeAll`: edits made one at a time
* `Edit.Overlap`: two edits of a list of which the later one begins before the earlier one ends
* `Edit.outside`, `Edit.weave`: the bytes in no edit, and what stands between replacements
-/

namespace Transplant
namespace Edit

/-! ## One at a time -/

/-- The edit lies in a source of the given length. -/
structure Fits (length : Nat) (e : Edit) : Prop where
  start_nonneg : 0 ≤ e.start
  start_le_stop : e.start ≤ e.stop
  stop_le : e.stop ≤ length

/-- The bytes with one edit made. -/
def make (e : Edit) (bytes : Bytes) : Bytes :=
  bytes.take e.start.toNat ++ Utf8.encode e.replacement ++ bytes.drop e.stop.toNat

/-- The bytes with the ordered edits made one at a time, the last one first. -/
def makeAll (bytes : Bytes) (edits : List Edit) : Bytes := edits.foldr make bytes

/-- Two edits, at different places of the ordered list, of which the later one begins before the
earlier one ends. -/
def Overlap (edits : List Edit) : Prop :=
  ∃ i j : Fin (inOrder edits).length, i < j ∧ (inOrder edits)[j].start < (inOrder edits)[i].stop

/-- No edit begins before an earlier one ends. -/
abbrev Separate (edits : List Edit) : Prop := edits.Pairwise fun a b => a.stop ≤ b.start

@[simp] theorem makeAll_nil (bytes : Bytes) : makeAll bytes [] = bytes := rfl

@[simp] theorem makeAll_cons (bytes : Bytes) (e : Edit) (rest : List Edit) :
    makeAll bytes (e :: rest) = e.make (makeAll bytes rest) := rfl

theorem place_of_nonneg (length : Nat) {offset : Int} (h : 0 ≤ offset) :
    place length offset = offset.toNat := by
  rw [place, if_neg (Int.not_lt.mpr h)]

theorem stretch_of_nonneg (source : Bytes) {start stop : Int} (hstart : 0 ≤ start)
    (hstop : 0 ≤ stop) :
    stretch source start stop = (source.drop start.toNat).take (stop.toNat - start.toNat) := by
  rw [stretch, place_of_nonneg _ hstart, place_of_nonneg _ hstop]

/-! ## The order -/

theorem notAfter_iff {a b : Edit} :
    notAfter a b = true ↔ a.start < b.start ∨ (a.start = b.start ∧ a.stop ≤ b.stop) := by
  simp [notAfter]

theorem start_le_of_notAfter {a b : Edit} (h : notAfter a b = true) : a.start ≤ b.start := by
  rw [notAfter_iff] at h
  omega

theorem perm_inOrder (edits : List Edit) : (inOrder edits).Perm edits :=
  List.mergeSort_perm edits notAfter

theorem mem_inOrder {edits : List Edit} {e : Edit} : e ∈ inOrder edits ↔ e ∈ edits :=
  (perm_inOrder edits).mem_iff

theorem pairwise_inOrder (edits : List Edit) :
    (inOrder edits).Pairwise fun a b => notAfter a b = true := by
  refine List.pairwise_mergeSort (fun a b c hab hbc => ?_) (fun a b => ?_) edits
  · rw [notAfter_iff] at *
    omega
  · rw [Bool.or_eq_true, notAfter_iff, notAfter_iff]
    omega

theorem overlap_iff {edits : List Edit} : Overlap edits ↔ ¬Separate (inOrder edits) := by
  rw [Overlap, Separate, List.pairwise_iff_get]
  simp only [not_forall, exists_prop, Int.not_le]
  rfl

/-- It is enough to compare neighbours. -/
theorem overlapFrom?_eq_none_iff {edits : List Edit}
    (hordered : edits.Pairwise fun a b => notAfter a b = true) (reached : Int) :
    overlapFrom? reached edits = none ↔ (∀ e ∈ edits, reached ≤ e.start) ∧ Separate edits := by
  induction edits generalizing reached with
  | nil => simp [overlapFrom?]
  | cons e rest ih =>
    obtain ⟨hfirst, hrest⟩ := List.pairwise_cons.mp hordered
    rw [overlapFrom?, Separate, List.pairwise_cons, List.forall_mem_cons]
    by_cases hbefore : e.start < reached
    · rw [if_pos hbefore]
      exact iff_of_false nofun fun h => absurd h.1.1 (Int.not_le.mpr hbefore)
    · rw [if_neg hbefore, ih hrest]
      have hreached := Int.not_lt.mp hbefore
      refine ⟨fun h => ⟨⟨hreached, fun e' he' => ?_⟩, h⟩, fun h => h.2⟩
      exact Int.le_trans hreached (start_le_of_notAfter (hfirst e' he'))

theorem overlap?_eq_none_iff {edits : List Edit} (h : ∀ e ∈ edits, 0 ≤ e.start) :
    overlap? edits = none ↔ Separate (inOrder edits) := by
  rw [overlap?, overlapFrom?_eq_none_iff (pairwise_inOrder edits)]
  refine and_iff_right fun e he => ?_
  have hstart := h e (mem_inOrder.mp he)
  omega

/-- Where the first overlap is depends on the places of the edits only. -/
theorem overlapFrom?_congr {edits edits' : List Edit} (reached : Int)
    (h : edits.map (fun e => (e.start, e.stop)) = edits'.map fun e => (e.start, e.stop)) :
    overlapFrom? reached edits = overlapFrom? reached edits' := by
  induction edits generalizing edits' reached with
  | nil => rw [List.map_eq_nil_iff.mp h.symm]
  | cons e rest ih =>
    cases edits' with
    | nil => cases h
    | cons e' rest' =>
      simp only [List.map_cons, List.cons.injEq, Prod.mk.injEq] at h
      rw [overlapFrom?, overlapFrom?, h.1.1, h.1.2, ih _ h.2]

/-- The places of the edits come in one order, whatever the order of the list is. -/
theorem places_inOrder_perm {edits edits' : List Edit} (h : edits.Perm edits') :
    (inOrder edits).map (fun e => (e.start, e.stop)) =
      (inOrder edits').map fun e => (e.start, e.stop) := by
  have hsorted (l : List Edit) : ((inOrder l).map fun e => (e.start, e.stop)).Pairwise
      fun p q : Int × Int => p.1 < q.1 ∨ (p.1 = q.1 ∧ p.2 ≤ q.2) := by
    rw [List.pairwise_map]
    exact (pairwise_inOrder l).imp notAfter_iff.mp
  have hperm := ((perm_inOrder edits).trans h).trans (perm_inOrder edits').symm
  refine (hperm.map _).eq_of_pairwise ?_ (hsorted edits) (hsorted edits')
  rintro ⟨a, b⟩ ⟨c, d⟩ - - hle hge
  rw [Prod.mk.injEq]
  omega

/-- **Without two insertions at one offset, edits that do not overlap have one order.** -/
theorem inOrder_perm {edits edits' : List Edit} (h : edits.Perm edits')
    (hfit : ∀ e ∈ edits, e.start ≤ e.stop) (hseparate : Separate (inOrder edits))
    (hinsertions : ((edits.filter fun e => e.start = e.stop).map (·.start)).Nodup) :
    inOrder edits = inOrder edits' := by
  have hperm := ((perm_inOrder edits).trans h).trans (perm_inOrder edits').symm
  have hsorted := pairwise_inOrder edits
  have hunique : (inOrder edits).Pairwise fun a b => a.start = b.start → a.stop ≠ b.stop := by
    have hnodup : ((inOrder edits).filter fun e => e.start = e.stop).Pairwise
        fun a b => a.start ≠ b.start :=
      List.pairwise_map.mp ((((perm_inOrder edits).filter _).map _).nodup_iff.mpr hinsertions)
    rw [List.pairwise_filter] at hnodup
    refine (hseparate.and hnodup).imp_of_mem fun {a b} ha hb hboth hstart hstop => ?_
    have hle := hfit a (mem_inOrder.mp ha)
    have hle' := hfit b (mem_inOrder.mp hb)
    exact hboth.2 (by simp; omega) (by simp; omega) hstart
  refine hperm.eq_of_pairwise (fun a b ha hb hle hge => ?_) hsorted (pairwise_inOrder edits')
  rw [notAfter_iff] at hle hge
  by_contra hne
  have : Std.Symm fun a b : Edit => a.start = b.start → a.stop ≠ b.stop :=
    ⟨fun _ _ h hstart hstop => h hstart.symm hstop.symm⟩
  exact hunique.forall ha (hperm.mem_iff.mpr hb) hne (by omega) (by omega)

/-! ## All at once and one at a time -/

section Splice

variable {source : Bytes} {edits : List Edit} {e : Edit}

/-- What stands in front of the edits is not touched. -/
theorem take_makeAll (hfit : ∀ e ∈ edits, e.Fits source.length) {n : Nat}
    (hn : ∀ e ∈ edits, (n : Int) ≤ e.start) (hlength : n ≤ source.length) :
    (makeAll source edits).take n = source.take n := by
  induction edits with
  | nil => rfl
  | cons e rest ih =>
    rw [List.forall_mem_cons] at hfit hn
    have hrest := ih hfit.2 hn.2
    have hstart : n ≤ e.start.toNat := by omega
    have hlong : n ≤ (makeAll source rest).length := by
      have := congrArg List.length hrest
      simp only [List.length_take] at this
      omega
    rw [makeAll_cons, make, List.append_assoc,
      List.take_append_of_le_length (by rw [List.length_take]; omega), List.take_take,
      Nat.min_eq_left hstart, hrest]

/-- From any place in front of the edits on, making them all at once gives what making them one at a
time gives. -/
theorem spliceFrom_eq (hfit : ∀ e ∈ edits, e.Fits source.length) (hseparate : Separate edits)
    {cursor : Int} (hnonneg : 0 ≤ cursor) (hcursor : ∀ e ∈ edits, cursor ≤ e.start) :
    spliceFrom source cursor edits = (makeAll source edits).drop cursor.toNat := by
  induction edits generalizing cursor with
  | nil => rw [spliceFrom, place_of_nonneg _ hnonneg, makeAll_nil]
  | cons e rest ih =>
    rw [List.forall_mem_cons] at hfit hcursor
    obtain ⟨⟨hstart, hle, hstop⟩, hfits⟩ := hfit
    obtain ⟨hbehind, hseparate⟩ := List.pairwise_cons.mp hseparate
    have hfront : (makeAll source rest).take e.start.toNat = source.take e.start.toNat :=
      take_makeAll hfits (fun e' he' => by have := hbehind e' he'; omega) (by omega)
    rw [spliceFrom, ih hfits hseparate (by omega) hbehind, makeAll_cons, make, hfront,
      stretch_of_nonneg _ hnonneg hstart, List.append_assoc, List.append_assoc,
      List.drop_append_of_le_length (by rw [List.length_take]; omega), List.drop_take]

/-- **Edits that do not overlap can be made one at a time.** -/
theorem splice_eq_makeAll (hfit : ∀ e ∈ edits, e.Fits source.length)
    (hseparate : Separate (inOrder edits)) :
    splice source edits = makeAll source (inOrder edits) := by
  have hordered : ∀ e ∈ inOrder edits, e.Fits source.length := fun e he => hfit e (mem_inOrder.mp he)
  rw [splice, spliceFrom_eq hordered hseparate (Int.le_refl 0) fun e he => (hordered e he).start_nonneg]
  rfl

/-! ## What is kept -/

/-- The bytes of a source that lie in no edit, in order. -/
def outside (source : Bytes) (edits : List Edit) : Bytes :=
  (source.zipIdx.filter fun b => edits.all fun e => !(e.start ≤ b.2 && b.2 < e.stop)).map (·.1)

/-- Texts with other texts between them. -/
def weave : List Bytes → List Bytes → Bytes
  | gap :: gaps, text :: texts => gap ++ text ++ weave gaps texts
  | gaps, _ => gaps.flatten

/-- What stands between the edits, from a place in front of them on. -/
def gapsFrom (source : Bytes) (cursor : Int) : List Edit → List Bytes
  | [] => [source.drop cursor.toNat]
  | e :: rest => stretch source cursor e.start :: gapsFrom source e.stop rest

theorem length_gapsFrom (cursor : Int) : (gapsFrom source cursor edits).length = edits.length + 1 := by
  induction edits generalizing cursor with
  | nil => rfl
  | cons e rest ih => rw [gapsFrom, List.length_cons, ih, List.length_cons]

theorem spliceFrom_eq_weave (hfit : ∀ e ∈ edits, e.Fits source.length) {cursor : Int}
    (hnonneg : 0 ≤ cursor) :
    spliceFrom source cursor edits =
      weave (gapsFrom source cursor edits) (edits.map fun e => Utf8.encode e.replacement) := by
  induction edits generalizing cursor with
  | nil => simp [spliceFrom, gapsFrom, weave, place_of_nonneg _ hnonneg]
  | cons e rest ih =>
    rw [List.forall_mem_cons] at hfit
    have hstop : 0 ≤ e.stop := Int.le_trans hfit.1.start_nonneg hfit.1.start_le_stop
    rw [spliceFrom, ih hfit.2 hstop, gapsFrom, List.map_cons, weave]

/-- A place that stands in a stretch of the source. -/
theorem mem_stretch_zipIdx {b : UInt8 × Nat} {first length : Nat}
    (h : b ∈ (source.zipIdx.drop first).take length) : first ≤ b.2 ∧ b.2 < first + length := by
  obtain ⟨i, hi, hb⟩ := List.mem_iff_getElem.mp h
  rw [List.getElem_take, List.getElem_drop, List.getElem_zipIdx] at hb
  rw [List.length_take] at hi
  rw [← hb]
  omega

theorem flatten_gapsFrom (hfit : ∀ e ∈ edits, e.Fits source.length) (hseparate : Separate edits)
    {cursor : Int} (hnonneg : 0 ≤ cursor) (hcursor : ∀ e ∈ edits, cursor ≤ e.start) :
    (gapsFrom source cursor edits).flatten =
      ((source.zipIdx.drop cursor.toNat).filter fun b =>
        edits.all fun e => !(e.start ≤ b.2 && b.2 < e.stop)).map (·.1) := by
  induction edits generalizing cursor with
  | nil => simp [gapsFrom, List.map_drop, List.filter_eq_self.mpr]
  | cons e rest ih =>
    rw [List.forall_mem_cons] at hfit hcursor
    obtain ⟨⟨hstart, hle, hstop⟩, hfits⟩ := hfit
    obtain ⟨hbehind, hseparate⟩ := List.pairwise_cons.mp hseparate
    -- the source from the cursor on: in front of the edit, in it, and behind it
    have hsplit : source.zipIdx.drop cursor.toNat =
        (source.zipIdx.drop cursor.toNat).take (e.start.toNat - cursor.toNat) ++
          ((source.zipIdx.drop e.start.toNat).take (e.stop.toNat - e.start.toNat) ++
            source.zipIdx.drop e.stop.toNat) := by
      have hfirst : source.zipIdx.drop e.start.toNat =
          (source.zipIdx.drop cursor.toNat).drop (e.start.toNat - cursor.toNat) := by
        rw [List.drop_drop, Nat.add_sub_cancel' (by omega)]
      have hsecond : source.zipIdx.drop e.stop.toNat =
          (source.zipIdx.drop e.start.toNat).drop (e.stop.toNat - e.start.toNat) := by
        rw [List.drop_drop, Nat.add_sub_cancel' (by omega)]
      rw [hsecond, List.take_append_drop, hfirst, List.take_append_drop]
    have hfront : ∀ b ∈ (source.zipIdx.drop cursor.toNat).take (e.start.toNat - cursor.toNat),
        ((e :: rest).all fun e => !(e.start ≤ b.2 && b.2 < e.stop)) = true := by
      intro b hb
      have hplace := mem_stretch_zipIdx hb
      rw [List.all_eq_true, List.forall_mem_cons]
      refine ⟨by simp; omega, fun e' he' => ?_⟩
      have := hbehind e' he'
      simp
      omega
    have hinside : ∀ b ∈ (source.zipIdx.drop e.start.toNat).take (e.stop.toNat - e.start.toNat),
        ¬((e :: rest).all fun e => !(e.start ≤ b.2 && b.2 < e.stop)) = true := by
      intro b hb
      have hplace := mem_stretch_zipIdx hb
      rw [List.all_eq_true, List.forall_mem_cons]
      refine fun hboth => absurd hboth.1 ?_
      simp
      omega
    have hafter : ∀ b ∈ source.zipIdx.drop e.stop.toNat,
        ((e :: rest).all fun e => !(e.start ≤ b.2 && b.2 < e.stop)) =
          rest.all fun e => !(e.start ≤ b.2 && b.2 < e.stop) := by
      intro b hb
      rw [← List.take_length (l := source.zipIdx.drop e.stop.toNat)] at hb
      have hplace := mem_stretch_zipIdx hb
      rw [List.all_cons, show decide (b.2 < e.stop) = false by simp; omega]
      simp
    rw [gapsFrom, List.flatten_cons, ih hfits hseparate (by omega) hbehind, hsplit,
      List.filter_append, List.filter_append, List.filter_eq_self.mpr hfront,
      List.filter_eq_nil_iff.mpr hinside, List.nil_append, List.filter_congr hafter,
      List.map_append, stretch_of_nonneg _ hnonneg hstart, List.map_take, List.map_drop,
      List.zipIdx_map_fst]

theorem outside_inOrder (source : Bytes) (edits : List Edit) :
    outside source (inOrder edits) = outside source edits := by
  have hall (b : UInt8 × Nat) :
      ((inOrder edits).all fun e => !(e.start ≤ b.2 && b.2 < e.stop)) =
        edits.all fun e => !(e.start ≤ b.2 && b.2 < e.stop) := by
    rw [Bool.eq_iff_iff, List.all_eq_true, List.all_eq_true]
    simp only [mem_inOrder]
  simp only [outside, hall]

/-- What stands in front of the first edit, between each two, and behind the last one. -/
def gaps (source : Bytes) (edits : List Edit) : List Bytes := gapsFrom source 0 (inOrder edits)

theorem length_gaps : (gaps source edits).length = edits.length + 1 := by
  rw [gaps, length_gapsFrom, (perm_inOrder edits).length_eq]

/-- **The bytes outside the edits are kept, in order,** with the replacements between them. -/
theorem splice_eq_weave (hfit : ∀ e ∈ edits, e.Fits source.length) :
    splice source edits =
      weave (gaps source edits) ((inOrder edits).map fun e => Utf8.encode e.replacement) :=
  spliceFrom_eq_weave (fun e he => hfit e (mem_inOrder.mp he)) (Int.le_refl 0)

theorem flatten_gaps (hfit : ∀ e ∈ edits, e.Fits source.length)
    (hseparate : Separate (inOrder edits)) :
    (gaps source edits).flatten = outside source edits := by
  have hordered : ∀ e ∈ inOrder edits, e.Fits source.length := fun e he => hfit e (mem_inOrder.mp he)
  have hcursor : ∀ e ∈ inOrder edits, 0 ≤ e.start := fun e he => (hordered e he).start_nonneg
  rw [gaps, flatten_gapsFrom hordered hseparate (Int.le_refl 0) hcursor, ← outside_inOrder]
  rfl

end Splice

/-! ## Characters -/

/-- The offset lies between two characters of a text, or at one of its ends. -/
def Boundary (text : String) (offset : Int) : Prop :=
  ∃ before after : String, text = before ++ after ∧ offset = (Utf8.encode before).length

end Edit

namespace Utf8

theorem encode_append (a b : String) : encode (a ++ b) = encode a ++ encode b := by
  simp [encode]

theorem length_encodeChar_pos (c : Char) : 0 < (String.utf8EncodeChar c).length := by
  rw [String.length_utf8EncodeChar]
  exact Char.utf8Size_pos c

end Utf8

namespace Edit

/-- Of two boundaries the one that comes first cuts the text in front of the other one. -/
theorem exists_between {text : String} {start stop : Int} (hstart : Boundary text start)
    (hstop : Boundary text stop) (hle : start ≤ stop) :
    ∃ between : String, stretch (Utf8.encode text) start stop = Utf8.encode between := by
  obtain ⟨before, after, htext, rfl⟩ := hstart
  obtain ⟨before', after', htext', rfl⟩ := hstop
  have hprefix : before.toList <+: before'.toList := by
    have hfirst : before.toList <+: text.toList := ⟨after.toList, by simp [htext]⟩
    have hsecond : before'.toList <+: text.toList := ⟨after'.toList, by simp [htext']⟩
    rcases List.prefix_or_prefix_of_prefix hfirst hsecond with h | ⟨more, hmore⟩
    · exact h
    · -- a longer text has more bytes
      have hbytes : Utf8.encode before =
          Utf8.encode before' ++ more.flatMap String.utf8EncodeChar := by
        rw [Utf8.encode, ← hmore, List.flatMap_append]
        rfl
      rw [hbytes, List.length_append] at hle
      cases more with
      | nil => exact ⟨[], by rw [List.append_nil] at hmore ⊢; exact hmore.symm⟩
      | cons c rest =>
        have hpos := Utf8.length_encodeChar_pos c
        rw [List.flatMap_cons, List.length_append] at hle
        omega
  obtain ⟨between, hbetween⟩ := hprefix
  have hbefore' : before' = before ++ String.ofList between := by
    rw [← String.toList_inj]
    simp [hbetween]
  refine ⟨String.ofList between, ?_⟩
  rw [stretch_of_nonneg _ (by omega) (by omega), htext', hbefore']
  simp only [Utf8.encode_append, Int.toNat_natCast, List.append_assoc, List.drop_left,
    List.length_append, Nat.add_sub_cancel_left, List.take_left]

/-- Between characters, edits give the bytes of a text. -/
theorem exists_text_spliceFrom {text : String} {edits : List Edit}
    (hfit : ∀ e ∈ edits, e.start ≤ e.stop)
    (hboundary : ∀ e ∈ edits, Boundary text e.start ∧ Boundary text e.stop)
    (hseparate : Separate edits) {cursor : Int} (hcursor : Boundary text cursor)
    (hfirst : ∀ e ∈ edits, cursor ≤ e.start) :
    ∃ text' : String, spliceFrom (Utf8.encode text) cursor edits = Utf8.encode text' := by
  induction edits generalizing cursor with
  | nil =>
    obtain ⟨before, after, rfl, rfl⟩ := hcursor
    refine ⟨after, ?_⟩
    rw [spliceFrom, place_of_nonneg _ (by omega), Utf8.encode_append]
    simp
  | cons e rest ih =>
    rw [List.forall_mem_cons] at hfit hboundary hfirst
    obtain ⟨hbehind, hseparate⟩ := List.pairwise_cons.mp hseparate
    obtain ⟨between, hbetween⟩ := exists_between hcursor hboundary.1.1 hfirst.1
    obtain ⟨more, hmore⟩ := ih hfit.2 hboundary.2 hseparate hboundary.1.2 hbehind
    refine ⟨between ++ e.replacement ++ more, ?_⟩
    rw [spliceFrom, hbetween, hmore, Utf8.encode_append, Utf8.encode_append]

/-- **Between characters, edits give a text again.** -/
theorem exists_text_splice {source : Bytes} {text : String} {edits : List Edit}
    (htext : Utf8.decode source = .ok text) (hfit : ∀ e ∈ edits, e.Fits source.length)
    (hseparate : Separate (inOrder edits))
    (hboundary : ∀ e ∈ edits, Boundary text e.start ∧ Boundary text e.stop) :
    ∃ text' : String, Utf8.decode (splice source edits) = .ok text' := by
  have hordered : ∀ e ∈ inOrder edits, e.Fits source.length := fun e he => hfit e (mem_inOrder.mp he)
  have hbegin : Boundary text 0 := ⟨"", text, by simp, by simp [Utf8.encode]⟩
  obtain ⟨text', htext'⟩ := exists_text_spliceFrom
    (fun e he => (hordered e he).start_le_stop) (fun e he => hboundary e (mem_inOrder.mp he))
    hseparate hbegin fun e he => (hordered e he).start_nonneg
  rw [Utf8.encode_of_decode htext] at htext'
  exact ⟨text', by rw [splice, htext', Utf8.decode_encode]⟩

end Edit

/-! ## Sources -/

namespace Source

open Edit

variable {s : Source} {edits edits' : List Edit}

theorem overlap?_eq_none (hfit : ∀ e ∈ edits, e.Fits s.bytes.length) :
    overlap? edits = none ↔ ¬Overlap edits := by
  rw [overlap?_eq_none_iff fun e he => (hfit e he).start_nonneg, overlap_iff, not_not]

/-- Edits of which none begins before an earlier one ends are made. -/
theorem apply_of_overlap?_eq_none (hnone : overlap? edits = none) (hsome : edits ≠ []) :
    s.apply edits = (ofBytes (splice s.bytes edits) s.path s.language).mapError .broken := by
  rw [apply, if_neg (mt List.isEmpty_iff.mp hsome), hnone]

theorem apply_overlap_iff {path : String} {start : Int} :
    s.apply edits = .error (.overlap path start) ↔ overlap? edits = some start ∧ path = s.path := by
  by_cases hempty : edits = []
  · subst hempty
    exact iff_of_false (by rintro ⟨⟩) (by simp [overlap?, inOrder, overlapFrom?])
  · rw [apply, if_neg (mt List.isEmpty_iff.mp hempty)]
    cases overlap? edits with
    | some start' => simp [and_comm, eq_comm]
    | none =>
      refine iff_of_false ?_ (by rintro ⟨⟨⟩, -⟩)
      cases ofBytes (splice s.bytes edits) s.path s.language <;> rintro ⟨⟩

/-- Edits of which no two are insertions at one offset are made in one way, whatever their order. -/
theorem apply_perm (hfit : ∀ e ∈ edits, e.Fits s.bytes.length) (h : edits.Perm edits')
    (hinsertions : ((edits.filter fun e => e.start = e.stop).map (·.start)).Nodup) :
    s.apply edits' = s.apply edits := by
  have hoverlap : overlap? edits' = overlap? edits :=
    overlapFrom?_congr (-1) (places_inOrder_perm h.symm)
  have hempty : edits'.isEmpty = edits.isEmpty := by
    rw [Bool.eq_iff_iff, List.isEmpty_iff, List.isEmpty_iff]
    exact ⟨fun h' => List.perm_nil.mp (h' ▸ h), fun h' => List.nil_perm.mp (h' ▸ h)⟩
  rw [apply, apply, hempty, hoverlap]
  split
  · rfl
  · cases hnone : overlap? edits with
    | some start => rfl
    | none =>
      rw [overlap?_eq_none_iff fun e he => (hfit e he).start_nonneg] at hnone
      have horder := inOrder_perm h (fun e he => (hfit e he).start_le_stop) hnone hinsertions
      simp only [splice, horder]

/-- **Edits are spliced into a source.**  For edits that lie in the source:

* they are refused exactly if two of them overlap, wherever these stand in the list;
* otherwise what is read is what making them one at a time gives, the last one first, and consists of
  the bytes outside the edits, in order, with the replacements between them;
* the order of the list does not matter, unless two insertions are at one offset;
* between characters, they give a text again. -/
theorem apply_splices (s : Source) (edits : List Edit) (hfit : ∀ e ∈ edits, e.Fits s.bytes.length) :
    ((∃ start, s.apply edits = .error (.overlap s.path start)) ↔ Overlap edits) ∧
    (¬Overlap edits →
      (edits ≠ [] → s.apply edits =
        (ofBytes (makeAll s.bytes (inOrder edits)) s.path s.language).mapError .broken) ∧
      makeAll s.bytes (inOrder edits) =
        weave (gaps s.bytes edits) ((inOrder edits).map fun e => Utf8.encode e.replacement) ∧
      (gaps s.bytes edits).length = edits.length + 1 ∧
      (gaps s.bytes edits).flatten = outside s.bytes edits) ∧
    (∀ edits', edits.Perm edits' →
      ((edits.filter fun e => e.start = e.stop).map (·.start)).Nodup →
      s.apply edits' = s.apply edits) ∧
    (¬Overlap edits → ∀ text, s.text = .ok text →
      (∀ e ∈ edits, Boundary text e.start ∧ Boundary text e.stop) →
      ∃ text', Utf8.decode (makeAll s.bytes (inOrder edits)) = .ok text') := by
  have hseparate (h : ¬Overlap edits) : Separate (inOrder edits) :=
    not_not.mp (mt overlap_iff.mpr h)
  refine ⟨?_, fun h => ⟨fun hsome => ?_, ?_, length_gaps, flatten_gaps hfit (hseparate h)⟩,
    fun _ => apply_perm hfit, fun h text htext hboundary => ?_⟩
  · rw [← not_not (a := Overlap edits), ← overlap?_eq_none hfit, ← ne_eq,
      Option.ne_none_iff_exists']
    exact exists_congr fun start => by rw [apply_overlap_iff, and_iff_left rfl]
  · rw [apply_of_overlap?_eq_none ((overlap?_eq_none hfit).mpr h) hsome,
      splice_eq_makeAll hfit (hseparate h)]
  · rw [← splice_eq_makeAll hfit (hseparate h), splice_eq_weave hfit]
  · rw [← splice_eq_makeAll hfit (hseparate h)]
    exact exists_text_splice htext hfit (hseparate h) hboundary

/-- Three edits, of which one is an insertion where another one ends. -/
def touching : List Edit := [⟨8, 8, "s"⟩, ⟨6, 8, "ö"⟩, ⟨0, 5, "let"⟩]

/-- Two edits that overlap. -/
def crossing : List Edit := [⟨4, 8, "x"⟩, ⟨0, 5, "let"⟩]

theorem inOrder_touching : inOrder touching = touching.reverse := by
  simp [touching, inOrder, List.mergeSort, List.MergeSort.Internal.splitInTwo, notAfter]

theorem inOrder_crossing : inOrder crossing = crossing.reverse := by
  simp [crossing, inOrder, List.mergeSort, List.MergeSort.Internal.splitInTwo, notAfter]

/-- In one source, edits that touch are made and edits that overlap are refused. -/
theorem apply_splices_touching :
    ∃ s, parse "const é = 1;\n" "A.js" = .ok s ∧
      s.apply touching =
        (ofBytes (Utf8.encode "let ös = 1;\n") "A.js" .javascript).mapError .broken ∧
      ∃ start, s.apply crossing = .error (.overlap "A.js" start) := by
  have hread : (parse "const é = 1;\n" "A.js").toOption.isSome = true := by decide +kernel
  obtain ⟨s, hs⟩ := Option.isSome_iff_exists.mp hread
  have hparse := ok_of_toOption hs
  obtain ⟨hbytes, hpath, hlanguage⟩ := ofBytes_fields hparse
  have hlength : s.bytes.length = 14 := by
    rw [hbytes]
    decide +kernel
  have htouching : ∀ e ∈ touching, e.Fits s.bytes.length := by
    simp only [hlength, touching, List.forall_mem_cons]
    exact ⟨⟨by decide, by decide, by decide⟩, ⟨by decide, by decide, by decide⟩,
      ⟨by decide, by decide, by decide⟩, nofun⟩
  have hcrossing : ∀ e ∈ crossing, e.Fits s.bytes.length := by
    simp only [hlength, crossing, List.forall_mem_cons]
    exact ⟨⟨by decide, by decide, by decide⟩, ⟨by decide, by decide, by decide⟩, nofun⟩
  refine ⟨s, hparse, ?_, ?_⟩
  · obtain ⟨-, hmade, -⟩ := apply_splices s touching htouching
    have hapart : ¬Overlap touching := by
      rw [← overlap?_eq_none htouching, overlap?, inOrder_touching]
      decide
    have hresult : makeAll (Utf8.encode "const é = 1;\n") touching.reverse =
        Utf8.encode "let ös = 1;\n" := by
      decide
    rw [(hmade hapart).1 (by decide), hbytes, hpath, hlanguage, inOrder_touching, hresult]
    rfl
  · obtain ⟨hrefused, -⟩ := apply_splices s crossing hcrossing
    have hoverlap : Overlap crossing := by
      rw [← not_not (a := Overlap crossing), ← overlap?_eq_none hcrossing, overlap?,
        inOrder_crossing]
      decide
    rw [← hpath]
    exact hrefused.mpr hoverlap

end Source
end Transplant
