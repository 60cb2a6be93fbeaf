import Transplant.Component.Expression
import Transplant.Proofs.Comments.Tree

/-!
# Expressions without their comments

What is read off an expression of a tidy tree (the kind of its value, the names it reads, whether it
can give markup) and off the parameters of a function is the same after the comments are deleted.
Functions that follow wrappers get an equation in terms of the first named child first, so that the
induction can go over everything below a node.
-/

namespace Transplant

open Node

namespace Function

variable {fn param : Node}

theorem params_uncommented (h : fn.Tidy) :
    params fn.uncommented = (params fn).map uncommented := by
  simp only [params, child?_uncommented h]
  cases fn.child? .parameter with
  | some single => rfl
  | none => cases fn.child? .parameters <;> simp

theorem tidy_of_mem_params (h : fn.Tidy) (hp : param ∈ params fn) : param.Tidy := by
  unfold params at hp
  split at hp
  · rename_i single hsingle
    obtain rfl := List.mem_singleton.mp hp
    exact h.of_child? hsingle
  · cases hlist : fn.child? .parameters with
    | none => rw [hlist] at hp; exact absurd hp List.not_mem_nil
    | some list =>
      rw [hlist] at hp
      exact (h.of_child? hlist).of_mem_parts hp

/-- The child in a role, or the node itself. -/
theorem getD_child?_uncommented {n : Node} (h : n.Tidy) (r : Role) :
    (n.uncommented.child? r).getD n.uncommented = ((n.child? r).getD n).uncommented := by
  rw [child?_uncommented h]
  cases n.child? r <;> rfl

theorem tidy_getD_child? {n : Node} (h : n.Tidy) (r : Role) : ((n.child? r).getD n).Tidy := by
  cases hc : n.child? r with
  | none => exact h
  | some c => exact h.of_child? hc

/-- A pattern without its default. -/
def bare (n : Node) : Node :=
  if n.kind == .assignmentPattern then (n.child? .left).getD n else n

theorem bare_uncommented {n : Node} (h : n.Tidy) : bare n.uncommented = (bare n).uncommented := by
  rw [bare, kind_uncommented, getD_child?_uncommented h, bare]
  split <;> rfl

theorem tidy_bare {n : Node} (h : n.Tidy) : (bare n).Tidy := by
  unfold bare
  split
  · exact tidy_getD_child? h .left
  · exact h

theorem pattern_eq (param : Node) :
    pattern param =
      if param.kind == .requiredParameter || param.kind == .optionalParameter then
        (bare ((param.child? .pattern).getD param), param.child? .typing)
      else (bare param, none) := by
  unfold pattern
  cases param.kind == .requiredParameter || param.kind == .optionalParameter <;> rfl

theorem pattern_uncommented (h : param.Tidy) :
    pattern param.uncommented =
      ((pattern param).1.uncommented, (pattern param).2.map uncommented) := by
  rw [pattern_eq, pattern_eq param, kind_uncommented]
  split
  · rw [getD_child?_uncommented h, bare_uncommented (tidy_getD_child? h .pattern),
      child?_uncommented h]
  · rw [bare_uncommented h]
    rfl

theorem tidy_pattern (h : param.Tidy) :
    (pattern param).1.Tidy ∧ ∀ t, (pattern param).2 = some t → t.Tidy := by
  rw [pattern_eq]
  split
  · exact ⟨tidy_bare (tidy_getD_child? h .pattern), fun t ht => h.of_child? ht⟩
  · exact ⟨tidy_bare h, fun t ht => by cases ht⟩

end Function

namespace Expression

variable {e : Node}

theorem kindOf_uncommented (h : e.Tidy) : kindOf e.uncommented = kindOf e := by
  simp only [kindOf, unwrap_uncommented h, kind_uncommented, child?_uncommented h.unwrap,
    operatorText?_uncommented h.unwrap, Option.any_map]

theorem isNothing_uncommented (h : e.Tidy) : isNothing e.uncommented = isNothing e := by
  simp only [isNothing, unwrap_uncommented h, kind_uncommented]

theorem filter_walk_uncommented {n : Node} (h : n.Tidy) (p : Kind → Bool)
    (hp : p .comment = false) :
    n.uncommented.walk.filter (p ·.kind) = (n.walk.filter (p ·.kind)).map uncommented := by
  rw [walk_uncommented h, List.filter_map, List.filter_filter]
  congr 2
  funext c
  rw [Function.comp_apply, kind_uncommented]
  by_cases hkind : c.kind = .comment
  · simp [hkind, hp]
  · simp [hkind]

theorem boundNames_uncommented (h : e.Tidy) : boundNames e.uncommented = boundNames e := by
  have hnames : ∀ p : Node, p.Tidy →
      (p.uncommented.walk.filter (·.kind == .identifier)).map (·.text) =
        (p.walk.filter (·.kind == .identifier)).map (·.text) := by
    intro p hp
    rw [filter_walk_uncommented hp (· == .identifier) rfl, List.map_map]
    simp only [Function.comp_def, text_uncommented]
  unfold boundNames
  rw [filter_walk_uncommented h Kind.isFunction rfl, List.flatMap_map]
  refine List.flatMap_congr fun fn hfn => ?_
  rw [List.mem_filter] at hfn
  have hfunction : fn.Tidy := h.of_mem_walk hfn.1 fun hkind => by
    rw [hkind] at hfn
    exact absurd hfn.2 Bool.false_ne_true
  rw [Function.params_uncommented hfunction, List.flatMap_map]
  exact List.flatMap_congr fun p hp => hnames p (Function.tidy_of_mem_params hfunction hp)

theorem readName?_uncommented (v : Node.Visit) : readName? v.uncommented = readName? v := by
  have hparent : v.uncommented.parent?.any (·.kind.isTag) = v.parent?.any (·.kind.isTag) := by
    simp only [Visit.parent?, Visit.uncommented, List.head?_map, Option.any_map,
      kind_uncommented]
  simp only [readName?, hparent]
  simp only [Visit.uncommented, kind_uncommented, text_uncommented]

theorem freeNames_uncommented (h : e.Tidy) : freeNames e.uncommented = freeNames e := by
  have hvisits : e.uncommented.visits [] = _ := visits_uncommented h []
  have hcomment (v : Visit) (hkind : v.node.kind = .comment) : readName? v = none := by
    simp [readName?, hkind]
  simp only [freeNames, boundNames_uncommented h, hvisits, List.filterMap_map,
    List.filterMap_filter]
  congr 3
  funext v
  rw [Function.comp_apply, readName?_uncommented]
  by_cases hkind : v.node.kind = .comment
  · simp [hkind, hcomment v hkind]
  · simp [hkind, Visit.uncommented]

/-! ### Markup -/

theorem branchReturnsMarkup_eq (one other : Role) (l : List Node) :
    branchReturnsMarkup one other l =
      l.any fun c => (c.role == some one || c.role == some other) && returnsMarkup c := by
  induction l with
  | nil => rw [branchReturnsMarkup]; rfl
  | cons c rest ih => rw [branchReturnsMarkup, ih, List.any_cons]

theorem returnsMarkup_eq (n : Node) :
    returnsMarkup n =
      if n.kind.isWrapper then (n.namedChildren.head?.map returnsMarkup).getD false
      else if n.kind.isMarkup then true
      else if n.kind == .ternaryExpression then
        branchReturnsMarkup .consequence .alternative n.children
      else if n.kind == .binaryExpression then
        selects n.operatorText? && branchReturnsMarkup .right .left n.children
      else false := by
  rw [← eq_firstNamed (F := firstReturnsMarkup) (by rw [firstReturnsMarkup])
    (fun c rest => by rw [firstReturnsMarkup])]
  cases n
  rw [returnsMarkup]
  rfl

theorem returnsMarkup_uncommented {n : Node} (h : n.Tidy) :
    returnsMarkup n.uncommented = returnsMarkup n := by
  induction n using induct_below with
  | _ n ih =>
    have hbranch (one other : Role) :
        branchReturnsMarkup one other n.uncommented.children =
          branchReturnsMarkup one other n.children := by
      rw [branchReturnsMarkup_eq, branchReturnsMarkup_eq, children_uncommented]
      refine any_uncommented (fun c hc hkind => ?_) fun c hc hkind => ?_
      · rw [role_uncommented, ih c (mem_walkAll_child hc) (h.of_mem_children hc hkind)]
      · have hrole := (h.loose c (mem_walk_of_below (mem_walkAll_child hc)) hkind).1
        simp [hrole]
    rw [returnsMarkup_eq, returnsMarkup_eq n, kind_uncommented, hbranch, hbranch,
      operatorText?_uncommented h, head?_namedChildren_uncommented]
    split
    · rename_i hwrapper
      rw [h.head?_namedChildren hwrapper]
      cases hpart : n.firstPart? with
      | none => rfl
      | some c =>
        exact ih c (mem_below_of_mem_parts (List.mem_of_head? hpart)) (h.of_firstPart? hpart)
    · rfl

end Expression

end Transplant
