import Transplant.Component.Expression
import Transplant.Proofs.Grammar.Layout

/-!
# Which names a pattern binds

A pattern binds the names that receive a value.  Not every identifier in it is one of them: a
default, a computed key and a type are read where they stand.

A function binds the names in the patterns of its parameters, and it does so for what stands inside
it.  A method is such a function too, although the analysis counts it as part of its object or
class.

* `Binding.names`: the names that a pattern binds
* `Function.bound`: the names that a function binds by its parameters
* `Node.map_node_visits`, `Node.above_of_mem_visits`: what is visited, and what stands around it
-/

namespace Transplant

namespace Kind

/-- Functions and methods: what has parameters of its own. -/
def isScope (kind : Kind) : Bool := kind.isFunction || kind == .methodDefinition

theorem isScope_of_isFunction {kind : Kind} (h : kind.isFunction = true) : kind.isScope = true := by
  rw [isScope, h, Bool.true_or]

end Kind

namespace Binding

mutual

/-- The names that a pattern binds, the name of a declaration included. -/
def names : Node → List String
  | ⟨kind, _, _, _, _, text, children⟩ =>
    match kind with
    | .identifier | .shorthandPropertyIdentifierPattern | .typeIdentifier => [text]
    | .assignmentPattern | .objectAssignmentPattern => namesInRole .left children
    | .pairPattern => namesInRole .value children
    | .requiredParameter | .optionalParameter => namesInRole .pattern children
    | .objectPattern | .arrayPattern | .restPattern => namesOfAll children
    | _ => []

/-- The names that the first node in a role binds. -/
def namesInRole (r : Role) : List Node → List String
  | [] => []
  | c :: rest => if c.role == some r then names c else namesInRole r rest

/-- The names that some nodes bind. -/
def namesOfAll : List Node → List String
  | [] => []
  | c :: rest => names c ++ namesOfAll rest

end

end Binding

namespace Function

/-- The names that a function binds by its parameters. -/
def bound (fn : Node) : List String := (params fn).flatMap Binding.names

end Function

namespace Node

/-! ## Visits -/

/-- The visited nodes are those of the walk. -/
theorem map_node_visits (n : Node) (above : List Node) :
    (n.visits above).map (·.node) = n.walk := by
  induction n using induct_below generalizing above with
  | _ n ih =>
    rw [visits_eq, visitsAll_eq, walk_eq, walkAll_eq, List.map_cons, List.map_flatMap]
    congr 1
    exact List.flatMap_congr fun c hc => ih c (mem_walkAll_child hc) (n :: above)

theorem mem_walk_of_mem_visits {n : Node} {above : List Node} {v : Visit}
    (h : v ∈ n.visits above) : v.node ∈ n.walk := by
  rw [← map_node_visits n above]
  exact List.mem_map_of_mem h

theorem exists_visit {n m : Node} (h : m ∈ n.walk) (above : List Node) :
    ∃ v ∈ n.visits above, v.node = m := by
  rw [← map_node_visits n above] at h
  exact List.mem_map.mp h

/-- Around a visited node stand nodes of the tree, and then what stands around the tree. -/
theorem above_of_mem_visits {n : Node} {above : List Node} {v : Visit} (h : v ∈ n.visits above) :
    ∃ inner, v.above = inner ++ above ∧ ∀ m ∈ inner, m ∈ n.walk := by
  induction n using induct_below generalizing above with
  | _ n ih =>
    rw [visits_eq, visitsAll_eq, List.mem_cons, List.mem_flatMap] at h
    rcases h with rfl | ⟨c, hc, hv⟩
    · exact ⟨[], rfl, fun m hm => by cases hm⟩
    · obtain ⟨inner, habove, hinner⟩ := ih c (mem_walkAll_child hc) hv
      refine ⟨inner ++ [n], by rw [habove, List.append_assoc]; rfl, fun m hm => ?_⟩
      rcases List.mem_append.mp hm with hm | hm
      · exact walk_trans (mem_walk_of_mem_children hc) (hinner m hm)
      · rw [List.mem_singleton.mp hm]
        exact n.mem_walk_self

/-- Whatever is visited in a tree and is not its root has the root around it. -/
theorem mem_above_of_mem_visits {n : Node} {above : List Node} {v : Visit}
    (h : v ∈ n.visits above) (hne : v ≠ ⟨n, above⟩) : n ∈ v.above := by
  rw [visits_eq, visitsAll_eq, List.mem_cons, List.mem_flatMap] at h
  obtain ⟨c, -, hv⟩ := h.resolve_left hne
  obtain ⟨inner, habove, -⟩ := above_of_mem_visits hv
  rw [habove]
  exact List.mem_append_right _ List.mem_cons_self

end Node
end Transplant
