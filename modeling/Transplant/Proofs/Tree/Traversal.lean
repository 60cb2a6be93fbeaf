import Transplant.Proofs.Comments.Descriptor
import Transplant.Proofs.Grammar.Shapes
import Transplant.Tree.Traversal
import Mathlib.Data.List.Lex
import Mathlib.Data.List.Sort
import Mathlib.Logic.Function.Iterate

/-!
# Walks are complete, ordered and without repetitions

Two nodes of a tree can look the same, so what a walk visits is said of places.  A place is the way
down from the root, as the positions of children; lexicographically, it comes before the places
below it, and these come before the places below the next child.  That is pre-order.  A list of
nodes is `Node.InPreorder` if it has the nodes at some places of the tree, each place once, in this
order.

The walks over all nodes and over those outside of functions are one walk with different nodes to
enter (`Node.ListsEntered`), and so are the loops that do them with a stack.  Of such a loop all is
said by the nodes ahead of it, which are the walks of the nodes on the stack, from top to bottom.  A
turn takes the first of the nodes ahead to those visited (`Traversal.ahead_turn`,
`Traversal.visited_turn`).

* `Node.at?`, `Node.InPreorder`, `Node.OwnPlace`: what walks are to visit
* `Node.InPreorder.unique`: the nodes to visit and their order leave one list
* `Node.ListsEntered.inPreorder`: what a walk visits
* `Traversal.visited_iterate`, `Traversal.ahead_iterate`: what a loop has done after some turns
* `Node.AllNested.pairwise_start`: pre-order is the order of the source
* `Traversal.walks_exact`: both walks and both loops
-/

namespace Transplant
namespace Node

/-! ## Places -/

/-- The node at a place, which is given by the positions of children on the way down. -/
def at? : Node → List Nat → Option Node
  | n, [] => some n
  | n, i :: p => n.children[i]?.bind (·.at? p)

@[simp] theorem at?_nil (n : Node) : n.at? [] = some n := rfl

@[simp] theorem at?_cons (n : Node) (i : Nat) (p : List Nat) :
    n.at? (i :: p) = n.children[i]?.bind (·.at? p) := rfl

/-- The list has the nodes at the places of the tree that have the property, each place once, and a
place before what is below it and before what is below later children. -/
def InPreorder (n : Node) (P : List Nat → Prop) (l : List Node) : Prop :=
  ∃ places : List (List Nat), places.Pairwise (· < ·) ∧
    (∀ p, p ∈ places ↔ (n.at? p).isSome = true ∧ P p) ∧ l.map some = places.map n.at?

/-- A place below the root with no function strictly between the root and the place. -/
def OwnPlace (n : Node) (p : List Nat) : Prop :=
  p ≠ [] ∧ ∀ q, q <+: p → q ≠ [] → q ≠ p → ∀ m, n.at? q = some m → m.kind.isFunction = false

theorem InPreorder.congr {n : Node} {P Q : List Nat → Prop} {l : List Node}
    (h : n.InPreorder P l) (hPQ : ∀ p, P p ↔ Q p) : n.InPreorder Q l := by
  obtain ⟨places, hordered, hmem, hnodes⟩ := h
  exact ⟨places, hordered, fun p => by rw [hmem, hPQ], hnodes⟩

/-- **There is one such list at most.** -/
theorem InPreorder.unique {n : Node} {P : List Nat → Prop} {l l' : List Node}
    (h : n.InPreorder P l) (h' : n.InPreorder P l') : l = l' := by
  obtain ⟨places, hordered, hmem, hnodes⟩ := h
  obtain ⟨places', hordered', hmem', hnodes'⟩ := h'
  have hsame : places = places' :=
    hordered.eq_of_mem_iff hordered' fun p => by rw [hmem, hmem']
  have hmap : l.map some = l'.map some := by rw [hnodes, hnodes', hsame]
  exact List.map_injective_iff.mpr (Option.some_injective Node) hmap

/-! ## Walks that enter some nodes -/

/-- The function lists a node, and what is below it if the node is entered. -/
def ListsEntered (enters : Node → Bool) (list : Node → List Node) : Prop :=
  ∀ n, list n = n :: if enters n then n.children.flatMap list else []

theorem listsEntered_walk : ListsEntered (fun _ => true) walk := fun n => by
  rw [walk_eq, walkAll_eq, if_pos rfl]

theorem listsEntered_ownWalk : ListsEntered (fun n => !n.kind.isFunction) ownWalk := fun n => by
  rw [ownWalk_eq, ownWalkAll_eq]
  cases h : n.kind.isFunction <;> simp [h]

section Entered

variable (enters : Node → Bool)

/-- All nodes on the way to the place are entered. -/
def Entered (n : Node) (p : List Nat) : Prop :=
  ∀ q, q <+: p → q ≠ p → ∀ m, n.at? q = some m → enters m = true

/-- All nodes on the way from the root to the place below it are entered, the root aside. -/
def EnteredBelow (n : Node) (p : List Nat) : Prop :=
  p ≠ [] ∧ ∀ q, q <+: p → q ≠ [] → q ≠ p → ∀ m, n.at? q = some m → enters m = true

mutual

/-- The places that are reached when only some nodes are entered, in pre-order. -/
def places : Node → List (List Nat)
  | ⟨kind, role, start, stop, line, text, children⟩ =>
    [] :: if enters ⟨kind, role, start, stop, line, text, children⟩ then placesFrom 0 children else []

/-- The places that are reached below some nodes, which are children from the position `i` on. -/
def placesFrom (i : Nat) : List Node → List (List Nat)
  | [] => []
  | c :: rest => (places c).map (i :: ·) ++ placesFrom (i + 1) rest

end

variable {enters} {n : Node}

theorem places_eq (n : Node) :
    places enters n = [] :: if enters n then placesFrom enters 0 n.children else [] := by
  cases n; rw [places]

@[simp] theorem placesFrom_nil (i : Nat) : placesFrom enters i [] = [] := by rw [placesFrom]

@[simp] theorem placesFrom_cons (i : Nat) (c : Node) (rest : List Node) :
    placesFrom enters i (c :: rest) =
      (places enters c).map (i :: ·) ++ placesFrom enters (i + 1) rest := by rw [placesFrom]

theorem mem_placesFrom_iff {i : Nat} {l : List Node} {p : List Nat} :
    p ∈ placesFrom enters i l ↔ ∃ j c q, l[j]? = some c ∧ q ∈ places enters c ∧ p = (i + j) :: q := by
  induction l generalizing i with
  | nil => simp
  | cons d rest ih =>
    rw [placesFrom_cons, List.mem_append, List.mem_map, ih]
    constructor
    · rintro (⟨q, hq, rfl⟩ | ⟨j, c, q, hc, hq, rfl⟩)
      · exact ⟨0, d, q, rfl, hq, rfl⟩
      · exact ⟨j + 1, c, q, hc, hq, by rw [Nat.add_assoc, Nat.add_comm 1]⟩
    · rintro ⟨j, c, q, hc, hq, rfl⟩
      cases j with
      | zero =>
        obtain rfl := Option.some.inj hc
        exact .inl ⟨q, hq, rfl⟩
      | succ j => exact .inr ⟨j, c, q, hc, hq, by rw [Nat.add_assoc, Nat.add_comm 1]⟩

theorem cons_mem_placesFrom_iff {l : List Node} {i : Nat} {p : List Nat} :
    i :: p ∈ placesFrom enters 0 l ↔ ∃ c, l[i]? = some c ∧ p ∈ places enters c := by
  rw [mem_placesFrom_iff]
  constructor
  · rintro ⟨j, c, q, hc, hq, heq⟩
    obtain ⟨rfl, rfl⟩ := List.cons.inj heq
    exact ⟨c, by rwa [Nat.zero_add], hq⟩
  · rintro ⟨c, hc, hp⟩
    exact ⟨i, c, p, hc, hp, by rw [Nat.zero_add]⟩

theorem nil_notMem_placesFrom {i : Nat} {l : List Node} : [] ∉ placesFrom enters i l := by
  rw [mem_placesFrom_iff]
  rintro ⟨j, c, q, -, -, h⟩
  cases h

theorem entered_nil : Entered enters n [] :=
  fun _ hq hne => absurd (List.prefix_nil.mp hq) hne

theorem entered_cons_iff {i : Nat} {p : List Nat} :
    Entered enters n (i :: p) ↔ enters n = true ∧ EnteredBelow enters n (i :: p) := by
  constructor
  · intro h
    have hroot : enters n = true := h [] List.nil_prefix (List.cons_ne_nil i p).symm n rfl
    exact ⟨hroot, List.cons_ne_nil i p, fun q hq _ hne => h q hq hne⟩
  · rintro ⟨hroot, -, hbelow⟩ q hq hne m hm
    cases q with
    | nil =>
      obtain rfl := Option.some.inj hm
      exact hroot
    | cons j q => exact hbelow (j :: q) hq (List.cons_ne_nil j q) hne m hm

/-- The way to a place below a child goes on from the child. -/
theorem enteredBelow_cons_iff {i : Nat} {p : List Nat} {c : Node} (hc : n.children[i]? = some c) :
    EnteredBelow enters n (i :: p) ↔ Entered enters c p := by
  have hat (q : List Nat) : n.at? (i :: q) = c.at? q := by rw [at?_cons, hc, Option.bind_some]
  constructor
  · rintro ⟨-, h⟩ q hq hne m hm
    refine h (i :: q) (List.cons_prefix_cons.mpr ⟨rfl, hq⟩) (List.cons_ne_nil i q) ?_ m ?_
    · exact fun heq => hne (List.cons.inj heq).2
    · rw [hat, hm]
  · refine fun h => ⟨List.cons_ne_nil i p, fun q hq hnil hne m hm => ?_⟩
    obtain ⟨j, q, rfl⟩ := List.exists_cons_of_ne_nil hnil
    obtain ⟨rfl, hq'⟩ := List.cons_prefix_cons.mp hq
    exact h q hq' (fun heq => hne (heq ▸ rfl)) m (by rw [← hat, hm])

/-- **The places that are reached are those with all nodes on the way entered.** -/
theorem mem_places_iff {p : List Nat} :
    p ∈ places enters n ↔ (n.at? p).isSome = true ∧ Entered enters n p := by
  induction p generalizing n with
  | nil =>
    rw [places_eq]
    exact ⟨fun _ => ⟨rfl, entered_nil⟩, fun _ => List.mem_cons_self⟩
  | cons i p ih =>
    have hmem : i :: p ∈ places enters n ↔
        enters n = true ∧ ∃ c, n.children[i]? = some c ∧ p ∈ places enters c := by
      rw [places_eq, List.mem_cons, ← cons_mem_placesFrom_iff]
      cases enters n <;> simp
    rw [hmem, at?_cons, entered_cons_iff]
    cases hc : n.children[i]? with
    | none => simp
    | some c => simp [enteredBelow_cons_iff hc, ih, and_left_comm]

theorem pairwise_placesFrom {i : Nat} {l : List Node}
    (h : ∀ c ∈ l, (places enters c).Pairwise (· < ·)) :
    (placesFrom enters i l).Pairwise (· < ·) := by
  induction l generalizing i with
  | nil => simp
  | cons c rest ih =>
    obtain ⟨hc, hrest⟩ := List.forall_mem_cons.mp h
    rw [placesFrom_cons, List.pairwise_append, List.pairwise_map]
    refine ⟨hc.imp fun hlt => List.cons_lt_cons_iff.mpr (.inr ⟨rfl, hlt⟩), ih hrest, ?_⟩
    intro p hp q hq
    obtain ⟨p, -, rfl⟩ := List.mem_map.mp hp
    obtain ⟨j, d, q, -, -, rfl⟩ := mem_placesFrom_iff.mp hq
    exact List.cons_lt_cons_iff.mpr (.inl (by omega))

/-- **The places are reached in pre-order.** -/
theorem pairwise_places (n : Node) : (places enters n).Pairwise (· < ·) := by
  induction n using induct_below with
  | _ n ih =>
    rw [places_eq]
    split
    · refine List.pairwise_cons.mpr ⟨fun p hp => ?_, ?_⟩
      · cases p with
        | nil => exact absurd hp nil_notMem_placesFrom
        | cons i p => exact List.nil_lt_cons i p
      · exact pairwise_placesFrom fun c hc => ih c (mem_walkAll_child hc)
    · exact List.pairwise_singleton _ _

variable {list : Node → List Node}

/-- The nodes below some children of a node, by their places in the tree of the node. -/
theorem map_at?_placesFrom {i : Nat} {l : List Node}
    (hchildren : ∀ j, n.children[i + j]? = l[j]?)
    (h : ∀ c ∈ l, (places enters c).map c.at? = (list c).map some) :
    (placesFrom enters i l).map n.at? = (l.flatMap list).map some := by
  induction l generalizing i with
  | nil => simp
  | cons c rest ih =>
    obtain ⟨hc, hrest⟩ := List.forall_mem_cons.mp h
    have hfirst : n.children[i]? = some c := hchildren 0
    have hshift : ∀ j, n.children[i + 1 + j]? = rest[j]? := fun j => by
      rw [Nat.add_assoc, Nat.add_comm 1, hchildren, List.getElem?_cons_succ]
    have hbelow : ((places enters c).map (i :: ·)).map n.at? = (places enters c).map c.at? := by
      rw [List.map_map]
      exact List.map_congr_left fun p _ => by
        rw [Function.comp_apply, at?_cons, hfirst, Option.bind_some]
    rw [placesFrom_cons, List.map_append, hbelow, hc, ih hshift hrest, List.flatMap_cons,
      List.map_append]

namespace ListsEntered

variable (hlist : ListsEntered enters list)
include hlist

/-- **A walk lists the nodes at the places that are reached.** -/
theorem map_at?_places (n : Node) : (places enters n).map n.at? = (list n).map some := by
  induction n using induct_below with
  | _ n ih =>
    have hbelow : (placesFrom enters 0 n.children).map n.at? = (n.children.flatMap list).map some :=
      map_at?_placesFrom (fun j => by rw [Nat.zero_add]) fun c hc => ih c (mem_walkAll_child hc)
    rw [places_eq, hlist n, List.map_cons, List.map_cons, at?_nil]
    split
    · rw [hbelow]
    · rfl

theorem inPreorder (n : Node) : n.InPreorder (Entered enters n) (list n) :=
  ⟨places enters n, pairwise_places n, fun _ => mem_places_iff, (hlist.map_at?_places n).symm⟩

/-- A walk that leaves out the root has the places below it. -/
theorem inPreorder_below (n : Node) :
    n.InPreorder (EnteredBelow enters n) (n.children.flatMap list) := by
  refine ⟨placesFrom enters 0 n.children, pairwise_placesFrom fun c _ => pairwise_places c,
    fun p => ?_, (map_at?_placesFrom (fun j => by rw [Nat.zero_add]) fun c _ =>
      hlist.map_at?_places c).symm⟩
  cases p with
  | nil => exact ⟨fun h => absurd h nil_notMem_placesFrom, fun h => absurd rfl h.2.1⟩
  | cons i p =>
    rw [cons_mem_placesFrom_iff, at?_cons]
    cases hc : n.children[i]? with
    | none => simp
    | some c => simp [enteredBelow_cons_iff hc, mem_places_iff]

end ListsEntered

end Entered

/-- **In a tree whose nodes are nested, pre-order is the order of the source.** -/
theorem AllNested.pairwise_start {n : Node} (h : n.AllNested) :
    n.walk.Pairwise fun x y => x.start ≤ y.start := by
  refine h.pairwise_walk.imp_of_mem fun {x y} hx _ hxy => ?_
  have hnested : x.AllNested := fun m hm => h m (walk_trans hx hm)
  rcases hxy with hbelow | hbehind
  · exact (hnested.range (mem_walk_of_below hbelow)).1
  · exact hnested.nested.start_le_stop.trans hbehind

end Node

/-! ## Walks with a stack -/

namespace Traversal

/-- The nodes that a walk has ahead, by what is listed for each node on its stack. -/
def ahead (list : Node → List Node) (t : Traversal) : List Node := t.stack.flatMap list

/-- The walk visits the nodes of the list.  After `k` turns it has visited the first `k` of them, and
its stack is empty as soon as these are all. -/
def Visits (enters : Node → Bool) (t : Traversal) (l : List Node) : Prop :=
  ∀ k, ((turn enters)^[k] t).visited = l.take k ∧
    (((turn enters)^[k] t).stack = [] ↔ l.length ≤ k)

section Loop

variable {enters : Node → Bool} {list : Node → List Node}
variable (hlist : Node.ListsEntered enters list)
include hlist

theorem ahead_eq_nil_iff (t : Traversal) : t.ahead list = [] ↔ t.stack = [] := by
  rw [ahead, List.flatMap_eq_nil_iff]
  refine ⟨fun h => List.eq_nil_iff_forall_not_mem.mpr fun n hn => ?_, fun h n hn => ?_⟩
  · have hnone := h n hn
    rw [hlist n] at hnone
    cases hnone
  · rw [h] at hn
    cases hn

/-- A turn takes the first node off those ahead. -/
theorem ahead_turn (t : Traversal) : (t.turn enters).ahead list = (t.ahead list).tail := by
  obtain ⟨stack, visited⟩ := t
  cases stack with
  | nil => rfl
  | cons n rest =>
    have hstack : (if enters n then push rest n.children.reverse else rest).flatMap list =
        (if enters n then n.children.flatMap list else []) ++ rest.flatMap list := by
      split
      · rw [push_reverse, List.flatMap_append]
      · rfl
    rw [ahead, turn, hstack, ahead, List.flatMap_cons, hlist n]
    rfl

/-- A turn visits the first of the nodes ahead. -/
theorem visited_turn (t : Traversal) :
    (t.turn enters).visited = t.visited ++ (t.ahead list).take 1 := by
  obtain ⟨stack, visited⟩ := t
  cases stack with
  | nil => exact (List.append_nil visited).symm
  | cons n rest =>
    rw [ahead, List.flatMap_cons, hlist n]
    rfl

theorem ahead_iterate (k : Nat) (t : Traversal) :
    ((turn enters)^[k] t).ahead list = (t.ahead list).drop k := by
  induction k with
  | zero => rfl
  | succ k ih => rw [Function.iterate_succ_apply', ahead_turn hlist, ih, List.tail_drop]

/-- **After `k` turns the first `k` of the nodes ahead have been visited.** -/
theorem visited_iterate (k : Nat) (t : Traversal) :
    ((turn enters)^[k] t).visited = t.visited ++ (t.ahead list).take k := by
  induction k with
  | zero => exact (List.append_nil t.visited).symm
  | succ k ih =>
    rw [Function.iterate_succ_apply', visited_turn hlist, ih, ahead_iterate hlist,
      List.append_assoc, ← List.take_add]

/-- A walk that has visited nothing yet visits the nodes ahead. -/
theorem visits_ahead {t : Traversal} (ht : t.visited = []) : Visits enters t (t.ahead list) := by
  refine fun k => ⟨?_, ?_⟩
  · rw [visited_iterate hlist, ht, List.nil_append]
  · rw [← ahead_eq_nil_iff hlist, ahead_iterate hlist, List.drop_eq_nil_iff]

end Loop

theorem visits_walk (n : Node) : Visits (fun _ => true) (ofNode n) n.walk := by
  have h := visits_ahead Node.listsEntered_walk (t := ofNode n) rfl
  rwa [ahead, stack_ofNode, List.flatMap_singleton] at h

theorem visits_ownNodes (n : Node) :
    Visits (fun m => !m.kind.isFunction) (below n) n.ownNodes := by
  have h := visits_ahead Node.listsEntered_ownWalk (t := below n) rfl
  rwa [ahead, stack_below, ← Node.ownWalkAll_eq] at h

/-- **The walks are exact.**  With a stack that first holds the node, all nodes of the tree are
visited; with a stack that first holds its children, all nodes below it that are not inside of a
function below it.  Both loops come to an end, each after as many turns as there are nodes to visit,
and they visit each node once, in pre-order.  The second walk is part of the first, and where the
ranges of a tree are nested and ordered, the first visits nodes in the order in which they begin in
the source. -/
theorem walks_exact (n : Node) :
    Visits (fun _ => true) (ofNode n) n.walk ∧
    Visits (fun m => !m.kind.isFunction) (below n) n.ownNodes ∧
    n.InPreorder (fun _ => True) n.walk ∧
    n.InPreorder n.OwnPlace n.ownNodes ∧
    n.ownNodes.Sublist n.walk ∧
    (n.AllNested → n.walk.Pairwise fun x y => x.start ≤ y.start) := by
  refine ⟨visits_walk n, visits_ownNodes n, ?_, ?_, n.ownNodes_sublist, fun h => h.pairwise_start⟩
  · exact (Node.listsEntered_walk.inPreorder n).congr fun p =>
      iff_true_intro fun _ _ _ _ _ => rfl
  · rw [Node.ownNodes, Node.ownWalkAll_eq]
    refine (Node.listsEntered_ownWalk.inPreorder_below n).congr fun p => ?_
    simp only [Node.EnteredBelow, Node.OwnPlace, Bool.not_eq_true']

/-- A call with a function among its arguments. -/
def deferred : String := "later(() => done(1), 2);\n"

/-- The walk outside of functions finds the function and does not go into it. -/
theorem deferred_walked :
    ∃ s, Source.parse deferred "A.jsx" = .ok s ∧ s.root.AllNested ∧
      s.root.walk.Pairwise (fun x y => x.start ≤ y.start) ∧
      "() => done(1)" ∈ s.root.ownNodes.map (·.text) ∧
      "done" ∉ s.root.ownNodes.map (·.text) ∧ "done" ∈ s.root.walk.map (·.text) := by
  obtain ⟨s, hs, hfound⟩ := Site.exists_parse deferred "A.jsx" (P := fun s =>
    "() => done(1)" ∈ s.root.ownNodes.map (·.text) ∧
      "done" ∉ s.root.ownNodes.map (·.text) ∧ "done" ∈ s.root.walk.map (·.text))
    (by decide +kernel)
  have hnested : s.root.AllNested := (Source.wellFormed_root hs).allNested
  exact ⟨s, hs, hnested, (walks_exact s.root).2.2.2.2.2 hnested, hfound⟩

end Traversal
end Transplant
