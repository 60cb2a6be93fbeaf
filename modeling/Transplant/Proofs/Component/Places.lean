import Transplant.Proofs.Comments.Site

/-!
# Trees whose nodes stand elsewhere

When statements of a module change places, every node of them begins at another byte and on another
line; what the node is, what it says and what it is made of stay.  A `Node.Relocation` is a map with
this property that keeps functions apart.  Everything that is asked of a function to find out
whether it is a component has the same answer after a relocation.

* `Node.Relocation`, `Node.relocate`
* `Node.Relocation.child?`, `Node.Relocation.unwrap`, `Node.Relocation.walk`: reading a tree
* `Node.Relocation.isComponent`, `Node.Relocation.wrappedName?`, `Node.Relocation.listedExports`
-/

namespace Transplant
namespace Node

/-- A map that changes the places of nodes and nothing else.  Two functions that begin at different
places still do, and two that begin at the same place still do. -/
structure Relocation (f : Node → Node) : Prop where
  kind : ∀ n, (f n).kind = n.kind
  role : ∀ n, (f n).role = n.role
  text : ∀ n, (f n).text = n.text
  children : ∀ n, (f n).children = n.children.map f
  apart : ∀ m n, m.kind.isFunction = true → n.kind.isFunction = true →
    ((f m).start = (f n).start ↔ m.start = n.start)

namespace Relocation

variable {f : Node → Node}

/-! ## Reading a tree -/

theorem child? (hf : Relocation f) (n : Node) (r : Role) : (f n).child? r = (n.child? r).map f := by
  rw [Node.child?, hf.children, List.find?_map]
  simp only [Function.comp_def, hf.role]
  rfl

theorem namedChildren (hf : Relocation f) (n : Node) :
    (f n).namedChildren = n.namedChildren.map f := by
  rw [Node.namedChildren, hf.children, List.filter_map]
  simp only [Function.comp_def, isNamed, hf.kind]
  rfl

theorem parts (hf : Relocation f) (n : Node) : (f n).parts = n.parts.map f := by
  rw [Node.parts, hf.namedChildren, List.filter_map]
  simp only [Function.comp_def, hf.kind]
  rfl

theorem firstPart? (hf : Relocation f) (n : Node) : (f n).firstPart? = n.firstPart?.map f := by
  rw [Node.firstPart?, hf.parts, List.head?_map, Node.firstPart?]

theorem any_isToken (hf : Relocation f) (n : Node) (s : String) :
    (f n).children.any (·.isToken s) = n.children.any (·.isToken s) := by
  rw [hf.children, List.any_map]
  simp only [Function.comp_def, isToken, hf.kind, hf.text]

theorem map_text (hf : Relocation f) (o : Option Node) :
    (o.map f).map (·.text) = o.map (·.text) := by
  rw [Option.map_map]
  exact congrArg (o.map ·) (funext hf.text)

theorem operatorText? (hf : Relocation f) (n : Node) : (f n).operatorText? = n.operatorText? := by
  rw [Node.operatorText?, hf.child?, hf.map_text, Node.operatorText?]

theorem unwrap (hf : Relocation f) (n : Node) : (f n).unwrap = f n.unwrap := by
  induction n using induct_below with
  | _ n ih =>
    rw [unwrap_eq, unwrap_eq n, hf.kind, hf.namedChildren, List.head?_map]
    split
    · cases hfirst : n.namedChildren.head? with
      | none => rfl
      | some c => exact ih c (mem_below_of_head? hfirst)
    · rfl

theorem walk (hf : Relocation f) (n : Node) : (f n).walk = n.walk.map f := by
  induction n using induct_below with
  | _ n ih =>
    rw [walk_eq, walk_eq n, walkAll_eq, walkAll_eq, hf.children, List.map_cons, List.flatMap_map,
      List.map_flatMap]
    congr 1
    exact List.flatMap_congr fun c hc => ih c (mem_walkAll_child hc)

theorem ownWalk (hf : Relocation f) (n : Node) : (f n).ownWalk = n.ownWalk.map f := by
  induction n using induct_below with
  | _ n ih =>
    rw [ownWalk_eq, ownWalk_eq n, hf.kind, List.map_cons]
    split
    · rfl
    · rw [ownWalkAll_eq, ownWalkAll_eq, hf.children, List.flatMap_map, List.map_flatMap]
      congr 1
      exact List.flatMap_congr fun c hc => ih c (mem_walkAll_child hc)

theorem ownNodes (hf : Relocation f) (n : Node) : (f n).ownNodes = n.ownNodes.map f := by
  rw [Node.ownNodes, Node.ownNodes, ownWalkAll_eq, ownWalkAll_eq, hf.children, List.flatMap_map,
    List.map_flatMap]
  exact List.flatMap_congr fun c _ => hf.ownWalk c

/-! ## Functions -/

theorem params (hf : Relocation f) (fn : Node) :
    Function.params (f fn) = (Function.params fn).map f := by
  simp only [Function.params, hf.child?]
  cases fn.child? .parameter with
  | some single => rfl
  | none => cases fn.child? .parameters <;> simp [hf.parts]

theorem getD_child? (hf : Relocation f) (n : Node) (r : Role) :
    ((f n).child? r).getD (f n) = f ((n.child? r).getD n) := by
  rw [hf.child?]
  cases n.child? r <;> rfl

theorem bare (hf : Relocation f) (n : Node) : Function.bare (f n) = f (Function.bare n) := by
  rw [Function.bare, hf.kind, hf.getD_child?, Function.bare]
  split <;> rfl

theorem pattern_fst (hf : Relocation f) (param : Node) :
    (Function.pattern (f param)).1 = f (Function.pattern param).1 := by
  rw [Function.pattern_eq, Function.pattern_eq param, hf.kind, hf.getD_child?, hf.bare, hf.bare]
  split <;> rfl

theorem takesProps (hf : Relocation f) (params : List Node) :
    Site.takesProps (params.map f) = Site.takesProps params := by
  rw [Site.takesProps, List.head?_map, Option.all_map, Site.takesProps]
  simp only [hf.pattern_fst, hf.kind]

theorem returnsMarkup (hf : Relocation f) (n : Node) :
    Expression.returnsMarkup (f n) = Expression.returnsMarkup n := by
  induction n using induct_below with
  | _ n ih =>
    have hbranch (one other : Role) :
        Expression.branchReturnsMarkup one other (f n).children =
          Expression.branchReturnsMarkup one other n.children := by
      rw [Expression.branchReturnsMarkup_eq, Expression.branchReturnsMarkup_eq, hf.children,
        List.any_map, Bool.eq_iff_iff, List.any_eq_true, List.any_eq_true]
      refine exists_congr fun c => and_congr_right fun hc => ?_
      rw [Function.comp_apply, hf.role, ih c (mem_walkAll_child hc)]
    rw [Expression.returnsMarkup_eq, Expression.returnsMarkup_eq n, hf.kind, hbranch, hbranch,
      hf.operatorText?, hf.namedChildren, List.head?_map]
    split
    · cases hfirst : n.namedChildren.head? with
      | none => rfl
      | some c => exact ih c (mem_below_of_head? hfirst)
    · rfl

theorem any_returnsMarkup (hf : Relocation f) (o : Option Node) :
    (o.map f).any Expression.returnsMarkup = o.any Expression.returnsMarkup := by
  rw [Option.any_map]
  exact congrArg (o.any ·) (funext hf.returnsMarkup)

theorem rendersMarkup (hf : Relocation f) (fn : Node) :
    Site.rendersMarkup (f fn) = Site.rendersMarkup fn := by
  rw [Site.rendersMarkup, hf.child?, Option.any_map, Site.rendersMarkup]
  simp only [Function.comp_def, hf.kind, hf.returnsMarkup, hf.ownNodes, List.any_map,
    hf.firstPart?, hf.any_returnsMarkup]

theorem isComponent (hf : Relocation f) (fn : Node) (wrapper : Option String) :
    Site.isComponent (f fn) wrapper = Site.isComponent fn wrapper := by
  rw [Site.isComponent_eq, Site.isComponent_eq, hf.params, List.length_map, hf.takesProps,
    hf.rendersMarkup]

/-! ## Names -/

theorem wrappedName? (hf : Relocation f) (n : Node) :
    Site.wrappedName? (f n) = Site.wrappedName? n := by
  induction n using induct_below with
  | _ n ih =>
    rw [Site.wrappedName?_eq, Site.wrappedName?_eq n, hf.kind, hf.text, hf.child?, hf.child?,
      hf.namedChildren, List.head?_map, Option.any_map]
    simp only [hf.text]
    split
    · cases hfirst : n.namedChildren.head? with
      | none => rfl
      | some c => exact ih c (mem_below_of_head? hfirst)
    split
    · rfl
    split
    · cases harguments : n.child? .arguments with
      | none => rfl
      | some a =>
        simp only [Option.map_some, Option.bind_some, hf.firstPart?]
        cases hpart : a.firstPart? with
        | none => rfl
        | some c => exact ih c (mem_below_of_firstPart? harguments hpart)
    · rfl

theorem listedExports (hf : Relocation f) (statement : Node) :
    Site.listedExports (f statement) = Site.listedExports statement := by
  rw [Site.listedExports, hf.walk, List.filter_map, List.filterMap_map, Site.listedExports]
  simp only [Function.comp_def, hf.kind, hf.child?, Option.any_map, hf.text, Option.map_map]

end Relocation

/-! ## Relocating by byte -/

mutual

/-- The node with new places: `byte` says where a byte goes, and `line` where a line does. -/
def relocate (byte line : Nat → Nat) : Node → Node
  | ⟨kind, role, start, stop, first, text, children⟩ =>
    ⟨kind, role, byte start, byte (stop - 1) + 1, line first, text, relocateAll byte line children⟩

/-- The nodes with new places. -/
def relocateAll (byte line : Nat → Nat) : List Node → List Node
  | [] => []
  | c :: rest => relocate byte line c :: relocateAll byte line rest

end

theorem relocateAll_eq (byte line : Nat → Nat) (l : List Node) :
    relocateAll byte line l = l.map (relocate byte line) := by
  induction l with
  | nil => rw [relocateAll]; rfl
  | cons c rest ih => rw [relocateAll, ih, List.map_cons]

/-- No two bytes go to one place, so functions that begin at different bytes stay apart. -/
theorem relocation_relocate {byte : Nat → Nat} (hbyte : Function.Injective byte)
    (line : Nat → Nat) : Relocation (relocate byte line) where
  kind n := by cases n; rw [relocate]
  role n := by cases n; rw [relocate]
  text n := by cases n; rw [relocate]
  children n := by cases n; rw [relocate, relocateAll_eq]
  apart m n _ _ := by
    cases m
    cases n
    rw [relocate, relocate]
    exact hbyte.eq_iff

/-- Exchanges the stretches `[a, b)` and `[b, c)` of the numbers. -/
def exchange (a b c i : Nat) : Nat :=
  if a ≤ i ∧ i < b then i + (c - b) else if b ≤ i ∧ i < c then i - (b - a) else i

theorem exchange_injective {a b c : Nat} (hab : a ≤ b) (hbc : b ≤ c) :
    Function.Injective (exchange a b c) := by
  intro i j h
  unfold exchange at h
  split_ifs at h <;> omega

/-! ## Comparing trees -/

mutual

/-- Whether two nodes are the same, their children included. -/
def decEq : (m n : Node) → Decidable (m = n)
  | ⟨kind, role, start, stop, line, text, children⟩,
    ⟨kind', role', start', stop', line', text', children'⟩ =>
    haveI := decEqAll children children'
    decidable_of_iff
      ((kind = kind' ∧ role = role' ∧ start = start' ∧ stop = stop' ∧ line = line' ∧ text = text') ∧
        children = children')
      (by simp only [mk.injEq, and_assoc])

/-- Whether two lists of nodes are the same. -/
def decEqAll : (l l' : List Node) → Decidable (l = l')
  | [], [] => isTrue rfl
  | [], _ :: _ => isFalse nofun
  | _ :: _, [] => isFalse nofun
  | c :: rest, c' :: rest' =>
    haveI := decEq c c'
    haveI := decEqAll rest rest'
    decidable_of_iff (c = c' ∧ rest = rest') (by rw [List.cons.injEq])

end

instance : DecidableEq Node := decEq

end Node
end Transplant
