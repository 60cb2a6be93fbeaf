import Transplant.Proofs.Comments.Tree
import Mathlib.Data.List.Pairwise

/-!
# How nodes lie in a tree

The children of a node lie in the node, one behind the other (`Node.Nested`).  If that is so all over
a tree, then of two nodes the later one lies below the earlier one or behind it
(`Node.AllNested.pairwise_walk`), and what is said of one place of the tree cannot get into another
place.

Ranges alone do not say which nodes have anything below them.  `Node.Formed` adds what the grammar
says about the nodes that are looked for when a source is changed: names and strings are leaves, the
name of an attribute comes first, the members of an object pattern stand between its braces, and so
on.

* `Node.Nested`, `Node.Formed`: what is said of a node and its children
* `Node.AllNested`, `Node.WellFormed`: what is said of all nodes of a tree
* `Node.AllNested.range`, `Node.AllNested.pairwise_walk`: where the nodes of a tree lie
-/

namespace Transplant
namespace Node

/-! ## Nodes -/

/-- The children of a node lie in the node, one behind the other. -/
structure Nested (n : Node) : Prop where
  start_le_stop : n.start ≤ n.stop
  within : ∀ c ∈ n.children, n.start ≤ c.start ∧ c.stop ≤ n.stop
  ordered : n.children.Pairwise fun a b => a.stop ≤ b.start

/-- The kinds of nodes that have nothing below them. -/
def leafKinds : List Kind :=
  [.identifier, .propertyIdentifier, .shorthandPropertyIdentifier,
    .shorthandPropertyIdentifierPattern, .string]

/-- The kinds of nodes that are never empty: strings, and the members of an object pattern that bind
a prop. -/
def wideKinds : List Kind :=
  [.string, .shorthandPropertyIdentifierPattern, .objectAssignmentPattern, .pairPattern]

/-- The kinds of nodes that can have a role, for the roles that only some can have. -/
def kindsOf : Role → Option (List Kind)
  | .source => some [.string]
  | .arguments => some [.arguments, .templateString]
  | _ => none

/-- The kinds of names that an attribute can have. -/
def attributeNames : List Kind := [.propertyIdentifier, .jsxNamespaceName]

/-- A node has a role that nodes of its kind can have. -/
def RoleFits (n : Node) : Prop :=
  ∀ r, n.role = some r → ∀ kinds, kindsOf r = some kinds → n.kind ∈ kinds

/-- A node with its children, as sources have it. -/
structure Formed (n : Node) : Prop extends n.Nested where
  leaf : n.kind ∈ leafKinds → n.children = []
  wide : n.kind ∈ wideKinds → n.start < n.stop
  roles : ∀ c ∈ n.children, c.RoleFits
  named : n.kind = .jsxAttribute → ∀ c, n.firstPart? = some c → c.kind ∈ attributeNames
  namespaced : n.kind = .jsxNamespaceName → ∀ c ∈ n.children, c.children = []
  braces : n.kind = .objectPattern → ∀ c ∈ n.parts, n.start < c.start ∧ c.stop < n.stop

theorem mem_children_of_mem_parts {n c : Node} (h : c ∈ n.parts) : c ∈ n.children :=
  (List.mem_filter.mp (List.mem_filter.mp h).1).1

theorem mem_children_of_child? {n c : Node} {r : Role} (h : n.child? r = some c) :
    c ∈ n.children :=
  List.mem_of_find?_eq_some h

theorem mem_children_of_firstPart? {n c : Node} (h : n.firstPart? = some c) : c ∈ n.children :=
  mem_children_of_mem_parts (List.mem_of_head? h)

/-- The first part of a node, with comments in front. -/
theorem firstPart?_eq {n m : Node} {before after : List Node}
    (hchildren : n.children = before ++ m :: after) (hbefore : ∀ c ∈ before, c.kind = .comment)
    (htoken : m.kind ≠ .token) (hcomment : m.kind ≠ .comment) : n.firstPart? = some m := by
  have hpart : (m.kind != .token && m.kind != .comment) = true := by
    rw [bne_iff_ne.mpr htoken, bne_iff_ne.mpr hcomment, Bool.and_self]
  rw [← find?_part, hchildren, List.find?_append, List.find?_eq_none.mpr, Option.none_or,
    List.find?_cons, hpart]
  intro c hc
  simp [hbefore c hc]

theorem mem_walk_of_mem_children {n c : Node} (h : c ∈ n.children) : c ∈ n.walk :=
  mem_walk_of_below (mem_walkAll_child h)

theorem mem_walk_of_child? {n c : Node} {r : Role} (h : n.child? r = some c) : c ∈ n.walk :=
  mem_walk_of_mem_children (mem_children_of_child? h)

theorem mem_walk_of_mem_parts {n c : Node} (h : c ∈ n.parts) : c ∈ n.walk :=
  mem_walk_of_mem_children (mem_children_of_mem_parts h)

theorem mem_walk_iff {n m : Node} : m ∈ n.walk ↔ m = n ∨ ∃ c ∈ n.children, m ∈ c.walk := by
  rw [walk_eq, List.mem_cons, mem_walkAll]

/-! ## Trees -/

/-- All over a tree the children of a node lie in the node, one behind the other. -/
def AllNested (n : Node) : Prop := ∀ m ∈ n.walk, m.Nested

namespace AllNested

variable {n m : Node}

theorem nested (h : n.AllNested) : n.Nested := h n n.mem_walk_self

theorem of_children (h : n.AllNested) (hm : m ∈ n.children) : m.AllNested :=
  fun k hk => h k (mem_walk_iff.mpr (.inr ⟨m, hm, hk⟩))

/-- Everything below a node lies in it. -/
theorem range (h : n.AllNested) (hm : m ∈ n.walk) : n.start ≤ m.start ∧ m.stop ≤ n.stop := by
  induction n using induct_below with
  | _ n ih =>
    rcases mem_walk_iff.mp hm with rfl | ⟨c, hc, hm⟩
    · exact ⟨Nat.le_refl _, Nat.le_refl _⟩
    · have hchild := ih c (mem_walkAll_child hc) (h.of_children hc) hm
      have hwithin := h.nested.within c hc
      omega

/-- **Of two nodes of a tree the later one lies below the earlier one or behind it.** -/
theorem pairwise_walk (h : n.AllNested) :
    n.walk.Pairwise fun x y => y ∈ walkAll x.children ∨ x.stop ≤ y.start := by
  induction n using induct_below with
  | _ n ih =>
    rw [walk_eq]
    refine List.pairwise_cons.mpr ⟨fun y hy => .inl hy, ?_⟩
    rw [walkAll_eq, List.pairwise_flatMap]
    refine ⟨fun c hc => ih c (mem_walkAll_child hc) (h.of_children hc), ?_⟩
    refine h.nested.ordered.imp_of_mem fun {c d} hc hd hcd x hx y hy => .inr ?_
    have hrange := (h.of_children hc).range hx
    have hrange' := (h.of_children hd).range hy
    omega

end AllNested

/-- All nodes of a tree are formed. -/
def WellFormed (n : Node) : Prop := ∀ m ∈ n.walk, m.Formed

theorem wellFormed_iff {n : Node} : n.WellFormed ↔ n.Formed ∧ ∀ c ∈ n.children, c.WellFormed := by
  constructor
  · exact fun h => ⟨h n n.mem_walk_self, fun c hc m hm => h m (mem_walk_iff.mpr (.inr ⟨c, hc, hm⟩))⟩
  · rintro ⟨hn, hchildren⟩ m hm
    rcases mem_walk_iff.mp hm with rfl | ⟨c, hc, hm⟩
    · exact hn
    · exact hchildren c hc m hm

/-- A node with nothing below it. -/
theorem wellFormed_of_childless {n : Node} (hle : n.start ≤ n.stop) (hchildren : n.children = [])
    (hwide : n.kind ∈ wideKinds → n.start < n.stop) : n.WellFormed := by
  have hnone : ∀ {c : Node}, c ∉ n.children := by
    rw [hchildren]
    exact List.not_mem_nil
  refine wellFormed_iff.mpr ⟨⟨⟨hle, fun c hc => absurd hc hnone, ?_⟩, fun _ => hchildren, hwide,
    fun c hc => absurd hc hnone, fun _ c hc => ?_, fun _ c hc => absurd hc hnone, fun _ c hc => ?_⟩,
    fun c hc => absurd hc hnone⟩
  · rw [hchildren]
    exact .nil
  · exact absurd (mem_children_of_firstPart? hc) hnone
  · exact absurd (mem_children_of_mem_parts hc) hnone

namespace WellFormed

variable {n m : Node}

theorem formed (h : n.WellFormed) : n.Formed := h n n.mem_walk_self

theorem of_walk (h : n.WellFormed) (hm : m ∈ n.walk) : m.WellFormed :=
  fun k hk => h k (walk_trans hm hk)

theorem of_children (h : n.WellFormed) (hm : m ∈ n.children) : m.WellFormed :=
  h.of_walk (mem_walk_of_mem_children hm)

/-- What a node is for its parent does not matter. -/
theorem setRole (h : n.WellFormed) (r : Option Role) : ({ n with role := r } : Node).WellFormed := by
  obtain ⟨⟨⟨hle, hwithin, hordered⟩, hleaf, hwide, hroles, hnamed, hnamespaced, hbraces⟩,
    hchildren⟩ := wellFormed_iff.mp h
  exact wellFormed_iff.mpr ⟨⟨⟨hle, hwithin, hordered⟩, hleaf, hwide, hroles, hnamed, hnamespaced,
    hbraces⟩, hchildren⟩

theorem allNested (h : n.WellFormed) : n.AllNested := fun m hm => (h m hm).toNested

/-- Of two children, what is below the one lies before what is below the other. -/
theorem apart_of_children (h : n.WellFormed) {c d x y : Node} (hc : c ∈ n.children)
    (hd : d ∈ n.children) (hne : c ≠ d) (hx : x ∈ c.walk) (hy : y ∈ d.walk) :
    x.stop ≤ y.start ∨ y.stop ≤ x.start := by
  have hsymm : Std.Symm fun a b : Node => a.stop ≤ b.start ∨ b.stop ≤ a.start :=
    ⟨fun _ _ => Or.symm⟩
  have hordered : n.children.Pairwise fun a b => a.stop ≤ b.start ∨ b.stop ≤ a.start :=
    h.formed.ordered.imp Or.inl
  have hcd := hordered.forall hc hd hne
  have hrange := (h.of_children hc).allNested.range hx
  have hrange' := (h.of_children hd).allNested.range hy
  omega

end WellFormed
end Node
end Transplant
