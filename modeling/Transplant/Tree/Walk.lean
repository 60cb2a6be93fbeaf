import Transplant.Tree.Node

/-!
# Walking a tree

* `Node.walk`: the node and everything below it, in source order
* `Node.ownNodes`: everything below the node that is not inside a function below it; such a
  function itself is listed
* `Node.visits`: like `walk`, each node with the nodes around it, innermost first
-/

namespace Transplant
namespace Node

mutual

/-- The node and everything below it, in source order. -/
def walk : Node → List Node
  | ⟨kind, role, start, stop, line, text, children⟩ =>
    ⟨kind, role, start, stop, line, text, children⟩ :: walkAll children

/-- The walks of the nodes, one after the other. -/
def walkAll : List Node → List Node
  | [] => []
  | c :: rest => walk c ++ walkAll rest

end

mutual

/-- The node, and what is below it unless the node is a function. -/
def ownWalk : Node → List Node
  | ⟨kind, role, start, stop, line, text, children⟩ =>
    ⟨kind, role, start, stop, line, text, children⟩ ::
      (if kind.isFunction then [] else ownWalkAll children)

/-- The own walks of the nodes, one after the other. -/
def ownWalkAll : List Node → List Node
  | [] => []
  | c :: rest => ownWalk c ++ ownWalkAll rest

end

/-- Everything below the node, without going into functions. -/
def ownNodes (n : Node) : List Node := ownWalkAll n.children

/-- A node with the nodes around it, innermost first. -/
structure Visit where
  node : Node
  above : List Node
deriving Inhabited

mutual

/-- The node and everything below it, in source order, each with what is around it; `above` is
around the node itself. -/
def visits (above : List Node) : Node → List Visit
  | ⟨kind, role, start, stop, line, text, children⟩ =>
    ⟨⟨kind, role, start, stop, line, text, children⟩, above⟩ ::
      visitsAll (⟨kind, role, start, stop, line, text, children⟩ :: above) children

/-- The visits of the nodes, one after the other. -/
def visitsAll (above : List Node) : List Node → List Visit
  | [] => []
  | c :: rest => visits above c ++ visitsAll above rest

end

/-- The node that a visited node is a child of. -/
def Visit.parent? (v : Visit) : Option Node := v.above.head?

theorem walk_eq (n : Node) : n.walk = n :: walkAll n.children := by
  cases n; rw [walk]

@[simp] theorem walkAll_nil : walkAll [] = [] := by rw [walkAll]

@[simp] theorem walkAll_cons (c : Node) (rest : List Node) :
    walkAll (c :: rest) = c.walk ++ walkAll rest := by rw [walkAll]

theorem ownWalk_eq (n : Node) :
    n.ownWalk = n :: (if n.kind.isFunction then [] else ownWalkAll n.children) := by
  cases n; rw [ownWalk]

@[simp] theorem ownWalkAll_nil : ownWalkAll [] = [] := by rw [ownWalkAll]

@[simp] theorem ownWalkAll_cons (c : Node) (rest : List Node) :
    ownWalkAll (c :: rest) = c.ownWalk ++ ownWalkAll rest := by rw [ownWalkAll]

theorem visits_eq (above : List Node) (n : Node) :
    n.visits above = ⟨n, above⟩ :: visitsAll (n :: above) n.children := by
  cases n; rw [visits]

@[simp] theorem visitsAll_nil (above : List Node) : visitsAll above [] = [] := by rw [visitsAll]

@[simp] theorem visitsAll_cons (above : List Node) (c : Node) (rest : List Node) :
    visitsAll above (c :: rest) = c.visits above ++ visitsAll above rest := by rw [visitsAll]

end Node
end Transplant
