/-!
# Working ahead

Work on several items is under way at once, and finished work is committed in the order of the
items. Some work is begun at first, and one more piece after each commit, unless everything has
been called off. Work that has been begun is always committed.

The schedule is generic in the state, the items and the work, so that it can be compared with doing
one item after the other.

* `Schedule.run`: the state after all commits, and the items that were never begun
-/

namespace Transplant
namespace Schedule

variable {σ α β : Type}

/-- A run under way: the state, what is being worked on, what is left, and how often it has been
asked whether everything is called off. -/
structure Progress (σ α β : Type) where
  state : σ
  underway : List β := []
  remaining : List α
  asked : Nat := 0

/-- What a schedule is made of: the work on an item, begun in a state; the commit of work; and
whether everything is called off, which may depend on how often that has been asked. -/
structure Plant (σ α β : Type) where
  work : σ → α → β
  commit : σ → β → σ
  calledOff : Nat → σ → Bool

/-- Begins work on one more item, unless there is none or everything is called off. -/
def beginNext (p : Plant σ α β) (r : Progress σ α β) : Progress σ α β :=
  if p.calledOff r.asked r.state then { r with asked := r.asked + 1 }
  else match r.remaining with
    | [] => { r with asked := r.asked + 1 }
    | a :: rest =>
      { state := r.state, underway := r.underway ++ [p.work r.state a], remaining := rest
        asked := r.asked + 1 }

/-- Begins work several times. -/
def fill (p : Plant σ α β) : Nat → Progress σ α β → Progress σ α β
  | 0, r => r
  | n + 1, r => fill p n (beginNext p r)

/-- Commits the first work under way, then begins work on one more item. -/
def step (p : Plant σ α β) (r : Progress σ α β) : Progress σ α β :=
  match r.underway with
  | [] => r
  | b :: rest => beginNext p { r with state := p.commit r.state b, underway := rest }

/-- Commits until nothing is under way, in at most `fuel` steps. Every step leaves one item fewer. -/
def drain (p : Plant σ α β) : Nat → Progress σ α β → Progress σ α β
  | 0, r => r
  | fuel + 1, r => if r.underway.isEmpty then r else drain p fuel (step p r)

/-- The state after all commits, and the items that were never begun. -/
def run (p : Plant σ α β) (window : Nat) (state : σ) (items : List α) : σ × List α :=
  let r := drain p items.length (fill p window { state, remaining := items })
  (r.state, r.remaining)

end Schedule
end Transplant
