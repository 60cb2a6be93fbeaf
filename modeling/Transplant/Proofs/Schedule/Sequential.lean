import Transplant.Migration.Schedule
import Mathlib.Data.List.Basic

/-!
# Working ahead is working in order

A schedule begins work on several items before the first of them is committed.  What it comes to is
nevertheless the plain thing: some first part of the items is worked on and committed one after the
other, and the rest is handed back.  This file says so for every schedule, whatever it is called off
by and however wide its window is.

## Why work may be begun early

Work on an item is begun in the state of that moment, which is a state in which only some of the
items in front of it have been committed.  Working in order would begin it later, after all of them.
The two agree when committing the items in front does not change what the work comes to, and that is
`Steady`: the work on an item is a function of the item, as far as a run can tell.

## The invariant

`Follows` describes a run under way by two numbers: `done` items have been committed in order, and
the next `begun` are being worked on.  `beginNext` raises the second if it does anything, `step`
takes one from the second to the first, and the end of the run is where the second is zero.

* `run_eq_sequential`: the state is that of the first `k` items in order and the rest is left;
  without a call off nothing is left -/

namespace Transplant
namespace Schedule

variable {σ α β : Type}

/-- The state after the items have been worked on in state `s` and committed one after the other. -/
def sequential (p : Plant σ α β) (s : σ) (items : List α) : σ :=
  items.foldl (fun t a => p.commit t (p.work s a)) s

@[simp] theorem sequential_nil (p : Plant σ α β) (s : σ) : sequential p s [] = s := rfl

theorem sequential_concat (p : Plant σ α β) (s : σ) (items : List α) (a : α) :
    sequential p s (items ++ [a]) = p.commit (sequential p s items) (p.work s a) := by
  simp [sequential, List.foldl_append]

/-- The work on an item comes to the same before and after the items in front are committed. -/
def Steady (p : Plant σ α β) (s : σ) (items : List α) : Prop :=
  ∀ k, ∀ a ∈ items.drop k, p.work (sequential p s (items.take k)) a = p.work s a

/-- A run in which `done` items have been committed in order and the next `begun` are being worked
on. -/
structure Follows (p : Plant σ α β) (s : σ) (items : List α) (r : Progress σ α β)
    (done begun : Nat) : Prop where
  within : done + begun ≤ items.length
  state_eq : r.state = sequential p s (items.take done)
  underway_eq : r.underway = ((items.drop done).take begun).map (p.work s)
  remaining_eq : r.remaining = items.drop (done + begun)

theorem Follows.length_underway {p : Plant σ α β} {s : σ} {items : List α} {r : Progress σ α β}
    {done begun : Nat} (h : Follows p s items r done begun) : r.underway.length = begun := by
  have hw := h.within
  rw [h.underway_eq, List.length_map, List.length_take, List.length_drop]
  omega

/-- Beginning work on one more item is beginning the next one in order, if it is anything. -/
theorem Follows.beginNext {p : Plant σ α β} {s : σ} {items : List α} (hs : Steady p s items)
    {r : Progress σ α β} {done begun : Nat} (h : Follows p s items r done begun) :
    ∃ begun', Follows p s items (beginNext p r) done begun' := by
  unfold Schedule.beginNext
  split
  · exact ⟨begun, h.within, h.state_eq, h.underway_eq, h.remaining_eq⟩
  · split
    · exact ⟨begun, h.within, h.state_eq, h.underway_eq, h.remaining_eq⟩
    · rename_i a rest hrest
      have hdrop : items.drop (done + begun) = a :: rest := h.remaining_eq.symm.trans hrest
      have hlen := congrArg List.length hdrop
      rw [List.length_drop, List.length_cons] at hlen
      have hnext : ((items.drop done).drop begun) = a :: rest := by
        rw [List.drop_drop, hdrop]
      -- the item is begun in a state in which only `done` items are committed
      have hmem : a ∈ items.drop done :=
        List.mem_of_mem_drop (i := begun) (hnext ▸ List.mem_cons_self)
      have hwork : p.work r.state a = p.work s a := by rw [h.state_eq]; exact hs done a hmem
      have htake : (items.drop done).take (begun + 1) = (items.drop done).take begun ++ [a] := by
        have ha : (items.drop done)[begun]? = some a := by
          rw [← List.head?_drop, hnext, List.head?_cons]
        rw [List.take_add_one, ha, Option.toList_some]
      refine ⟨begun + 1, by omega, h.state_eq, ?_, ?_⟩
      · show r.underway ++ [p.work r.state a] = _
        rw [hwork, h.underway_eq, htake, List.map_append, List.map_singleton]
      · show rest = items.drop (done + (begun + 1))
        rw [← Nat.add_assoc, ← List.drop_drop, hdrop, List.drop_succ_cons, List.drop_zero]

theorem Follows.fill {p : Plant σ α β} {s : σ} {items : List α} (hs : Steady p s items)
    {done : Nat} (n : Nat) : ∀ {r : Progress σ α β} {begun : Nat},
    Follows p s items r done begun → ∃ begun', Follows p s items (fill p n r) done begun' := by
  induction n with
  | zero => intro r begun h; exact ⟨begun, h⟩
  | succ n ih =>
    intro r begun h
    obtain ⟨begun', h'⟩ := h.beginNext hs
    exact ih h'

/-- A step commits the next item in order. -/
theorem Follows.step {p : Plant σ α β} {s : σ} {items : List α} (hs : Steady p s items)
    {r : Progress σ α β} {done begun : Nat} (h : Follows p s items r done begun)
    (hbusy : r.underway ≠ []) : ∃ begun', Follows p s items (step p r) (done + 1) begun' := by
  obtain ⟨m, rfl⟩ : ∃ m, begun = m + 1 := by
    refine Nat.exists_eq_succ_of_ne_zero fun h0 => hbusy ?_
    rw [← List.length_eq_zero_iff, h.length_underway, h0]
  have hw := h.within
  have hlt : done < items.length := by omega
  have hdrop : items.drop done = items[done] :: items.drop (done + 1) :=
    List.drop_eq_getElem_cons hlt
  have hunder : r.underway =
      p.work s items[done] :: ((items.drop (done + 1)).take m).map (p.work s) := by
    rw [h.underway_eq, hdrop, List.take_succ_cons, List.map_cons]
  have hcommit : Follows p s items
      { r with
        state := p.commit r.state (p.work s items[done])
        underway := ((items.drop (done + 1)).take m).map (p.work s) } (done + 1) m := by
    refine ⟨by omega, ?_, rfl, ?_⟩
    · show p.commit r.state (p.work s items[done]) = _
      rw [h.state_eq, ← sequential_concat, List.take_add_one, List.getElem?_eq_getElem hlt,
        Option.toList_some]
    · show r.remaining = _
      rw [h.remaining_eq, Nat.add_right_comm, Nat.add_assoc]
  unfold Schedule.step
  rw [hunder]
  exact hcommit.beginNext hs

/-- Draining commits items in order until nothing is under way. -/
theorem Follows.drain {p : Plant σ α β} {s : σ} {items : List α} (hs : Steady p s items)
    (fuel : Nat) : ∀ {r : Progress σ α β} {done begun : Nat}, items.length ≤ done + fuel →
    Follows p s items r done begun → ∃ k, Follows p s items (drain p fuel r) k 0 := by
  induction fuel with
  | zero =>
    intro r done begun hfuel h
    have hw := h.within
    obtain rfl : begun = 0 := by omega
    exact ⟨done, h⟩
  | succ fuel ih =>
    intro r done begun hfuel h
    unfold Schedule.drain
    split
    · rename_i hempty
      rw [List.isEmpty_iff] at hempty
      obtain rfl : begun = 0 := by rw [← h.length_underway, hempty, List.length_nil]
      exact ⟨done, h⟩
    · rename_i hbusy
      rw [List.isEmpty_iff] at hbusy
      obtain ⟨begun', h'⟩ := h.step hs hbusy
      exact ih (by omega) h'

/-! ## Runs that are never called off -/

/-- Whether a run is still at work as long as items remain. -/
def Busy (r : Progress σ α β) : Prop := r.remaining = [] ∨ r.underway ≠ []

theorem busy_beginNext {p : Plant σ α β} (hcalm : ∀ n s, p.calledOff n s = false)
    (r : Progress σ α β) : Busy (beginNext p r) := by
  unfold beginNext
  rw [if_neg (by simp [hcalm])]
  split
  · rename_i hnil
    exact Or.inl hnil
  · exact Or.inr (by simp)

theorem busy_fill {p : Plant σ α β} (hcalm : ∀ n s, p.calledOff n s = false) (n : Nat) :
    ∀ {r : Progress σ α β}, Busy r → Busy (fill p n r) := by
  induction n with
  | zero => intro r h; exact h
  | succ n ih => intro r _; exact ih (busy_beginNext hcalm r)

theorem busy_drain {p : Plant σ α β} (hcalm : ∀ n s, p.calledOff n s = false) (fuel : Nat) :
    ∀ {r : Progress σ α β}, Busy r → Busy (drain p fuel r) := by
  induction fuel with
  | zero => intro r h; exact h
  | succ fuel ih =>
    intro r h
    unfold drain
    split
    · exact h
    · rename_i hbusy
      refine ih ?_
      unfold step
      split
      · exact h
      · exact busy_beginNext hcalm _

/-! ## Whole runs -/

/-- Where a run ends: everything that was begun has been committed. -/
def finished (p : Plant σ α β) (window : Nat) (s : σ) (items : List α) : Progress σ α β :=
  drain p items.length (fill p window { state := s, remaining := items })

theorem run_eq_finished (p : Plant σ α β) (window : Nat) (s : σ) (items : List α) :
    run p window s items =
      ((finished p window s items).state, (finished p window s items).remaining) := rfl

/-- A run that is not called off leaves nothing. -/
theorem remaining_finished {p : Plant σ α β} (hcalm : ∀ n s, p.calledOff n s = false) {window : Nat}
    (hwindow : 0 < window) {s : σ} {items : List α}
    (hidle : (finished p window s items).underway = []) :
    (finished p window s items).remaining = [] := by
  obtain ⟨n, rfl⟩ : ∃ n, window = n + 1 := Nat.exists_eq_succ_of_ne_zero (by omega)
  have hbusy : Busy (finished p (n + 1) s items) :=
    busy_drain hcalm _ (busy_fill hcalm n (busy_beginNext hcalm _))
  exact hbusy.resolve_right fun h => h hidle

theorem follows_finished (p : Plant σ α β) (window : Nat) (s : σ) {items : List α}
    (hs : Steady p s items) : ∃ k, Follows p s items (finished p window s items) k 0 := by
  have hstart : Follows p s items ({ state := s, remaining := items } : Progress σ α β) 0 0 :=
    ⟨Nat.zero_le _, rfl, rfl, rfl⟩
  obtain ⟨begun, hfill⟩ := hstart.fill hs window
  exact hfill.drain hs items.length (by omega)

/-- **A run commits a first part of the items in order.**  The state is the one that comes from the
first `k` items one after the other, and the other items are left.  If nothing calls the run off,
nothing is left, whatever the window is. -/
theorem run_eq_sequential (p : Plant σ α β) {window : Nat} (hwindow : 0 < window) (s : σ)
    {items : List α} (hs : Steady p s items) :
    ∃ k ≤ items.length, run p window s items = (sequential p s (items.take k), items.drop k) ∧
      ((∀ n t, p.calledOff n t = false) → k = items.length) := by
  obtain ⟨k, hk⟩ := follows_finished p window s hs
  refine ⟨k, hk.within, ?_, fun hcalm => ?_⟩
  · rw [run_eq_finished, hk.state_eq, hk.remaining_eq, Nat.add_zero]
  · have hidle : (finished p window s items).underway = [] := by
      rw [← List.length_eq_zero_iff, hk.length_underway]
    have hnone := remaining_finished hcalm hwindow hidle
    have hlen := congrArg List.length (hk.remaining_eq.symm.trans hnone)
    rw [List.length_drop, List.length_nil] at hlen
    have hwithin := hk.within
    omega

end Schedule
end Transplant
