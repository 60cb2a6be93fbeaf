import Transplant.Proofs.Schedule.Sequential
import Mathlib.Data.List.Forall2

/-!
# Every item is worked on at most once, and committed in its turn

`Schedule.run_eq_sequential` compares a run with doing one item after the other, and for that the
work must not depend on when it is begun.  This file asks for less and needs no such condition: it
only says which pieces of work a run commits.  A first part of the items is worked on, each of them
once; the work is committed in the order of the items; and the items that are left are the rest.

## When work is begun

Work on an item is begun after some of the items in front of it have been committed, but perhaps not
all of them.  `Worked` says just that: the next piece of work is begun in the state that comes from
committing a first part of the pieces so far.

## The invariant

`Ordered` keeps the work that has been committed (`done`) beside a run under way.  What has been
committed and what is under way is the work on the items that are no longer waiting.  `beginNext`
adds one piece at the end, in the state after `done`; `step` moves one piece from what is under way
to what is done, which leaves the two together as they were.

* `Schedule.run_commits_in_order`: what a run commits and what it leaves
-/

namespace Transplant
namespace Schedule

variable {σ α β : Type} {p : Plant σ α β} {s : σ} {items : List α} {r : Progress σ α β}
  {done : List β}

/-- The work on some items that is committed in their order from state `s`: each piece is begun when
a first part of the pieces in front has been committed. -/
inductive Worked (p : Plant σ α β) (s : σ) : List α → List β → Prop
  | nil : Worked p s [] []
  | concat {items : List α} {works earlier : List β} (h : Worked p s items works)
      (hearlier : earlier <+: works) (a : α) :
      Worked p s (items ++ [a]) (works ++ [p.work (earlier.foldl p.commit s) a])

/-- Every piece of work belongs to its item. -/
theorem Worked.forall₂ {works : List β} (h : Worked p s items works) :
    List.Forall₂ (fun a x => ∃ t, x = p.work t a) items works := by
  induction h with
  | nil => exact .nil
  | concat _ _ a ih => exact List.rel_append ih (.cons ⟨_, rfl⟩ .nil)

/-- The work on the first item is begun at the start. -/
theorem Worked.head? {works : List β} {a : α} (h : Worked p s items works)
    (ha : items.head? = some a) : works.head? = some (p.work s a) := by
  induction h with
  | nil => cases ha
  | @concat items works earlier h hearlier a' ih =>
    cases h.forall₂ with
    | nil =>
      obtain rfl := List.prefix_nil.mp hearlier
      obtain rfl := Option.some.inj ha
      rfl
    | cons _ _ => exact ih ha

/-- A run in which `done` has been committed in order, and in which this and the work under way is
the work on the items that are not waiting any more. -/
structure Ordered (p : Plant σ α β) (s : σ) (items : List α) (r : Progress σ α β)
    (done : List β) : Prop where
  state_eq : r.state = done.foldl p.commit s
  begun : ∃ front, items = front ++ r.remaining ∧ Worked p s front (done ++ r.underway)

theorem Ordered.length_done (h : Ordered p s items r done) :
    done.length + r.underway.length ≤ items.length := by
  obtain ⟨front, hitems, hbegun⟩ := h.begun
  have hlength := hbegun.forall₂.length_eq
  rw [List.length_append] at hlength
  rw [hitems, List.length_append]
  omega

theorem Ordered.beginNext (h : Ordered p s items r done) :
    Ordered p s items (beginNext p r) done := by
  unfold Schedule.beginNext
  split
  · exact ⟨h.state_eq, h.begun⟩
  · split
    · exact ⟨h.state_eq, h.begun⟩
    · rename_i a rest hrest
      obtain ⟨front, hitems, hbegun⟩ := h.begun
      refine ⟨h.state_eq, front ++ [a], ?_, ?_⟩
      · rw [hitems, hrest, List.append_assoc, List.singleton_append]
      · show Worked p s (front ++ [a]) (done ++ (r.underway ++ [p.work r.state a]))
        rw [← List.append_assoc, h.state_eq]
        exact hbegun.concat (List.prefix_append done r.underway) a

theorem Ordered.fill (n : Nat) : ∀ {r : Progress σ α β}, Ordered p s items r done →
    Ordered p s items (fill p n r) done := by
  induction n with
  | zero => intro r h; exact h
  | succ n ih => intro r h; exact ih h.beginNext

/-- A step commits the work that was begun first. -/
theorem Ordered.step (h : Ordered p s items r done) (hbusy : r.underway ≠ []) :
    ∃ x, Ordered p s items (step p r) (done ++ [x]) := by
  obtain ⟨x, rest, hunder⟩ := List.exists_cons_of_ne_nil hbusy
  obtain ⟨front, hitems, hbegun⟩ := h.begun
  refine ⟨x, ?_⟩
  unfold Schedule.step
  rw [hunder]
  refine Ordered.beginNext ⟨?_, front, hitems, ?_⟩
  · show p.commit r.state x = _
    rw [h.state_eq, List.foldl_append]
    rfl
  · rwa [List.append_assoc, List.singleton_append, ← hunder]

/-- Draining commits work in order until none is under way. -/
theorem Ordered.drain (fuel : Nat) : ∀ {r : Progress σ α β} {done : List β},
    items.length ≤ done.length + fuel → Ordered p s items r done →
    ∃ all, Ordered p s items (drain p fuel r) all ∧ (drain p fuel r).underway = [] := by
  induction fuel with
  | zero =>
    intro r done hfuel h
    have hlength := h.length_done
    refine ⟨done, h, List.length_eq_zero_iff.mp ?_⟩
    show r.underway.length = 0
    omega
  | succ fuel ih =>
    intro r done hfuel h
    unfold Schedule.drain
    split
    · rename_i hempty
      exact ⟨done, h, List.isEmpty_iff.mp hempty⟩
    · rename_i hbusy
      rw [List.isEmpty_iff] at hbusy
      obtain ⟨x, h'⟩ := h.step hbusy
      refine ih ?_ h'
      rw [List.length_append, List.length_singleton]
      omega

/-- **A run commits the work on a first part of the items, in their order.**  Each of the first `k`
items is worked on once; the state in the end is that of committing this work piece by piece; and
the other items are left.  This holds whatever calls the run off, and if nothing does, no item is
left. -/
theorem run_commits_in_order (p : Plant σ α β) {window : Nat} (hwindow : 0 < window) (s : σ)
    (items : List α) :
    ∃ k ≤ items.length, ∃ works, Worked p s (items.take k) works ∧
      run p window s items = (works.foldl p.commit s, items.drop k) ∧
      ((∀ n t, p.calledOff n t = false) → k = items.length) := by
  have hstart : Ordered p s items ({ state := s, remaining := items } : Progress σ α β) [] :=
    ⟨rfl, [], rfl, .nil⟩
  obtain ⟨works, h, hidle⟩ := Ordered.drain items.length (by simp) (hstart.fill window)
  obtain ⟨front, hitems, hbegun⟩ := h.begun
  rw [hidle, List.append_nil] at hbegun
  have htake : items.take front.length = front := by
    conv_lhs => rw [hitems]
    exact List.take_left
  have hdrop : items.drop front.length = (finished p window s items).remaining := by
    conv_lhs => rw [hitems]
    exact List.drop_left
  refine ⟨front.length, ?_, works, htake.symm ▸ hbegun, ?_, fun hcalm => ?_⟩
  · rw [hitems, List.length_append]
    omega
  · rw [run_eq_finished, ← hdrop]
    exact congrArg (·, _) h.state_eq
  · have hlength : (finished p window s items).remaining.length = 0 := by
      rw [remaining_finished hcalm hwindow hidle, List.length_nil]
    rw [← hdrop, List.length_drop] at hlength
    rw [hitems, List.length_append] at hlength ⊢
    omega

end Schedule
end Transplant
