import Transplant.Tree.Walk

/-!
# Walking with a stack

A tree can be walked without recursion.  A stack holds the nodes that are still to be visited; in a
turn the node on top is taken off and visited, and its children take its place.  They are put on the
stack in reverse, so that the first child comes out first.

* `Traversal`: a walk that is under way
* `Traversal.ofNode`, `Traversal.below`: where the walk over a node and everything below it begins,
  and the walk that leaves out the node itself
* `Traversal.turn`: what is done again and again until the stack is empty
-/

namespace Transplant

/-- A walk that is under way. -/
structure Traversal where
  /-- The nodes that are still to be visited, the next one on top. -/
  stack : List Node
  /-- The nodes that have been visited, in order. -/
  visited : List Node := []
deriving Inhabited

namespace Traversal

/-- Puts nodes on a stack, one after the other. -/
def push (stack nodes : List Node) : List Node := nodes.foldl (fun stack n => n :: stack) stack

/-- The beginning of a walk over a node and everything below it. -/
def ofNode (n : Node) : Traversal := { stack := push [] [n] }

/-- The beginning of a walk over everything below a node. -/
def below (n : Node) : Traversal := { stack := push [] n.children.reverse }

/-- Visits the node on top of the stack; its children are visited later if the walk enters the node.
When the stack is empty nothing more is done. -/
def turn (enters : Node → Bool) (t : Traversal) : Traversal :=
  match t.stack with
  | [] => t
  | n :: rest =>
    { stack := if enters n then push rest n.children.reverse else rest
      visited := t.visited ++ [n] }

@[simp] theorem push_reverse (stack nodes : List Node) :
    push stack nodes.reverse = nodes ++ stack := by
  rw [push, List.foldl_reverse, List.foldr_cons_eq_append, List.map_id']

@[simp] theorem stack_ofNode (n : Node) : (ofNode n).stack = [n] := rfl

@[simp] theorem stack_below (n : Node) : (below n).stack = n.children := by
  rw [below, push_reverse, List.append_nil]

end Traversal
end Transplant
