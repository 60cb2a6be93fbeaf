import Transplant.Tree.Walk
import Mathlib.Data.List.Basic
import Mathlib.Data.List.Flatten

/-!
# Trees without their comments

`Node.uncommented` deletes the comments of a tree and keeps every other node where it stands, with
its text.  What is read off a tree by role or by part does not see the difference: a comment plays
no role, and it is no part.

## The one exception

`Node.unwrap` looks for the first child that is no token, and finds a comment where one stands right
behind an opening parenthesis.  `Node.Tidy` therefore asks for two things.  That comments are loose
(no role, no children) is true of every tree that is read from a text.  That no wrapper begins with
a comment is a condition on the source.

* `Node.uncommented`, `Node.Tidy`
* `Node.induct_below`: induction over everything below a node
* `Node.child?_uncommented`, `Node.parts_uncommented`, `Node.unwrap_uncommented`
* `Node.walk_uncommented`, `Node.ownNodes_uncommented`, `Node.visits_uncommented`
-/

namespace Transplant
namespace Node

/-! ## Everything below a node -/

theorem mem_walk_self (n : Node) : n ∈ n.walk := by
  rw [walk_eq]
  exact List.mem_cons_self

theorem walkAll_eq (l : List Node) : walkAll l = l.flatMap walk := by
  induction l with
  | nil => rfl
  | cons c rest ih => rw [walkAll_cons, ih, List.flatMap_cons]

theorem mem_walkAll {m : Node} {l : List Node} : m ∈ walkAll l ↔ ∃ c ∈ l, m ∈ c.walk := by
  rw [walkAll_eq, List.mem_flatMap]

theorem mem_walkAll_child {n c : Node} (h : c ∈ n.children) : c ∈ walkAll n.children := by
  rw [mem_walkAll]
  exact ⟨c, h, c.mem_walk_self⟩

theorem mem_walk_of_below {n m : Node} (h : m ∈ walkAll n.children) : m ∈ n.walk := by
  rw [walk_eq]
  exact List.mem_cons_of_mem _ h

/-- What holds of a node as soon as it holds of everything below it holds of every node. -/
theorem induct_below {P : Node → Prop} (step : ∀ n : Node, (∀ m ∈ walkAll n.children, P m) → P n)
    (n : Node) : P n := by
  have hall : ∀ m ∈ n.walk, P m := by
    refine @Node.rec (fun n => ∀ m ∈ n.walk, P m) (fun l => ∀ m ∈ walkAll l, P m) ?_ ?_ ?_ n
    · intro kind role start stop line text children ih m hm
      rw [walk] at hm
      rcases List.mem_cons.mp hm with rfl | hm
      · exact step _ ih
      · exact ih m hm
    · intro m hm
      exact absurd hm List.not_mem_nil
    · intro c rest hc hrest m hm
      rw [walkAll_cons, List.mem_append] at hm
      exact hm.elim (hc m) (hrest m)
  exact hall n n.mem_walk_self

theorem walk_trans {n m k : Node} (hm : m ∈ n.walk) (hk : k ∈ m.walk) : k ∈ n.walk := by
  induction n using induct_below with
  | _ n ih =>
    rw [walk_eq] at hm
    rcases List.mem_cons.mp hm with rfl | hm
    · exact hk
    · rw [mem_walkAll] at hm
      obtain ⟨c, hc, hmc⟩ := hm
      apply mem_walk_of_below
      rw [mem_walkAll]
      exact ⟨c, hc, ih c (mem_walkAll_child hc) hmc⟩

/-! ## Deleting the comments -/

mutual

/-- The tree without the comments below its root; all other nodes stay where they stand. -/
def uncommented : Node → Node
  | ⟨kind, role, start, stop, line, text, children⟩ =>
    ⟨kind, role, start, stop, line, text, uncommentedAll children⟩

/-- The nodes that are no comments, without the comments in them. -/
def uncommentedAll : List Node → List Node
  | [] => []
  | c :: rest =>
    if c.kind == .comment then uncommentedAll rest else uncommented c :: uncommentedAll rest

end

@[simp] theorem kind_uncommented (n : Node) : n.uncommented.kind = n.kind := by
  cases n; rw [uncommented]

@[simp] theorem role_uncommented (n : Node) : n.uncommented.role = n.role := by
  cases n; rw [uncommented]

@[simp] theorem start_uncommented (n : Node) : n.uncommented.start = n.start := by
  cases n; rw [uncommented]

@[simp] theorem text_uncommented (n : Node) : n.uncommented.text = n.text := by
  cases n; rw [uncommented]

@[simp] theorem isNamed_uncommented (n : Node) : n.uncommented.isNamed = n.isNamed := by
  simp [isNamed]

@[simp] theorem isToken_uncommented (n : Node) (s : String) :
    n.uncommented.isToken s = n.isToken s := by
  simp [isToken]

theorem uncommentedAll_eq (l : List Node) :
    uncommentedAll l = (l.filter (·.kind != .comment)).map uncommented := by
  induction l with
  | nil => rw [uncommentedAll]; rfl
  | cons c rest ih =>
    rw [uncommentedAll, ih]
    by_cases h : c.kind = .comment
    · simp [h]
    · simp [h]

@[simp] theorem children_uncommented (n : Node) :
    n.uncommented.children = (n.children.filter (·.kind != .comment)).map uncommented := by
  cases n; rw [uncommented, uncommentedAll_eq]

@[simp] theorem parts_uncommented (n : Node) : n.uncommented.parts = n.parts.map uncommented := by
  simp only [parts, namedChildren, children_uncommented, List.filter_map, Function.comp_def,
    isNamed_uncommented, kind_uncommented, List.filter_filter]
  congr 2
  funext c
  cases c.kind != .comment <;> cases c.isNamed <;> rfl

theorem namedChildren_uncommented (n : Node) :
    n.uncommented.namedChildren = n.parts.map uncommented := by
  simp only [parts, namedChildren, children_uncommented, List.filter_map, Function.comp_def,
    isNamed_uncommented, List.filter_filter, Bool.and_comm]

@[simp] theorem firstPart?_uncommented (n : Node) :
    n.uncommented.firstPart? = n.firstPart?.map uncommented := by
  simp [firstPart?]

theorem any_isToken_uncommented (n : Node) (s : String) :
    n.uncommented.children.any (·.isToken s) = n.children.any (·.isToken s) := by
  rw [children_uncommented, List.any_map, List.any_filter]
  congr 1
  funext c
  rw [Function.comp_apply, isToken_uncommented]
  by_cases h : c.kind = .token
  · simp [h]
  · simp [isToken, h]

/-! ## Tidy trees -/

/-- A node that is no comment, below which every comment is loose and no wrapper begins with a
comment. -/
structure Tidy (n : Node) : Prop where
  kind : n.kind ≠ .comment
  loose : ∀ m ∈ n.walk, m.kind = .comment → m.role = none ∧ m.children = []
  wrapper : ∀ m ∈ n.walk, m.kind.isWrapper → ∀ c ∈ m.namedChildren.head?, c.kind ≠ .comment

instance (n : Node) : Decidable n.Tidy :=
  decidable_of_iff
    (n.kind ≠ .comment ∧ (∀ m ∈ n.walk, m.kind = .comment → m.role = none ∧ m.children = []) ∧
      ∀ m ∈ n.walk, m.kind.isWrapper → ∀ c ∈ m.namedChildren.head?, c.kind ≠ .comment)
    ⟨fun h => ⟨h.1, h.2.1, h.2.2⟩, fun h => ⟨h.kind, h.loose, h.wrapper⟩⟩

namespace Tidy

variable {n m c : Node} {r : Role}

theorem of_mem_walk (h : n.Tidy) (hm : m ∈ n.walk) (hkind : m.kind ≠ .comment) : m.Tidy where
  kind := hkind
  loose k hk := h.loose k (walk_trans hm hk)
  wrapper k hk := h.wrapper k (walk_trans hm hk)

theorem of_mem_children (h : n.Tidy) (hc : c ∈ n.children) (hkind : c.kind ≠ .comment) : c.Tidy :=
  h.of_mem_walk (mem_walk_of_below (mem_walkAll_child hc)) hkind

theorem of_role (h : n.Tidy) (hc : c ∈ n.children) (hrole : c.role = some r) : c.Tidy := by
  refine h.of_mem_children hc fun hkind => ?_
  have hloose := h.loose c (mem_walk_of_below (mem_walkAll_child hc)) hkind
  rw [hrole] at hloose
  exact absurd hloose.1 (Option.some_ne_none r)

theorem of_child? (h : n.Tidy) (hc : n.child? r = some c) : c.Tidy :=
  h.of_role (List.mem_of_find?_eq_some hc) (by simpa using List.find?_some hc)

theorem of_mem_parts (h : n.Tidy) (hc : c ∈ n.parts) : c.Tidy := by
  simp only [parts, namedChildren, List.mem_filter, bne_iff_ne, ne_eq] at hc
  exact h.of_mem_children hc.1.1 hc.2

theorem of_firstPart? (h : n.Tidy) (hc : n.firstPart? = some c) : c.Tidy :=
  h.of_mem_parts (List.mem_of_head? hc)

end Tidy

theorem mem_below_of_mem_parts {n c : Node} (h : c ∈ n.parts) : c ∈ walkAll n.children := by
  simp only [parts, namedChildren, List.mem_filter] at h
  exact mem_walkAll_child h.1.1

theorem mem_below_of_head? {n c : Node} (h : n.namedChildren.head? = some c) :
    c ∈ walkAll n.children :=
  mem_walkAll_child (List.mem_filter.mp (List.mem_of_head? h)).1

/-- The first part of a child, such as the first argument of a call. -/
theorem mem_below_of_firstPart? {n a c : Node} {r : Role} (ha : n.child? r = some a)
    (hc : a.firstPart? = some c) : c ∈ walkAll n.children :=
  mem_walkAll.mpr ⟨a, List.mem_of_find?_eq_some ha,
    mem_walk_of_below (mem_below_of_mem_parts (List.mem_of_head? hc))⟩

/-- Children that are told by their kind are found as before. -/
theorem find?_kind_uncommented (n : Node) {k : Kind} (hk : k ≠ .comment) :
    n.uncommented.children.find? (·.kind == k) =
      (n.children.find? (·.kind == k)).map uncommented := by
  rw [children_uncommented, List.find?_map, List.find?_filter]
  congr 2
  funext c
  by_cases h : c.kind = k
  · simp [h, hk]
  · simp [h]

/-- A comment plays no role, so whatever plays one stays. -/
theorem child?_uncommented {n : Node} (h : n.Tidy) (r : Role) :
    n.uncommented.child? r = (n.child? r).map uncommented := by
  have hrole : ∀ c ∈ n.children, (c.kind != .comment && c.role == some r) = (c.role == some r) := by
    intro c hc
    by_cases hr : c.role = some r
    · simp [hr, (h.of_role hc hr).kind]
    · simp [hr]
  rw [child?, children_uncommented, List.find?_map, List.find?_filter, child?]
  simp only [Function.comp_def, role_uncommented, Bool.decide_and, Bool.decide_eq_true]
  rw [← List.head?_filter, List.filter_congr hrole, List.head?_filter]

/-- A test that does not see the comments of a node does not see those of an optional node. -/
theorem any_map_uncommented {o : Option Node} {p : Node → Bool}
    (h : ∀ c, o = some c → p c.uncommented = p c) : (o.map uncommented).any p = o.any p := by
  cases o with
  | none => rfl
  | some c => exact h c rfl

theorem bind_map_uncommented {α β : Type} {o : Option Node} {f : Node → Option α}
    {g : Node → Option β} {φ : α → β}
    (h : ∀ c, o = some c → g c.uncommented = (f c).map φ) :
    (o.map uncommented).bind g = (o.bind f).map φ := by
  cases o with
  | none => rfl
  | some c => exact h c rfl

theorem bind_map_uncommented_of_same {α : Type} {o : Option Node} {g : Node → Option α}
    (h : ∀ c, o = some c → g c.uncommented = g c) : (o.map uncommented).bind g = o.bind g := by
  cases o with
  | none => rfl
  | some c => exact h c rfl

theorem operatorText?_uncommented {n : Node} (h : n.Tidy) :
    n.uncommented.operatorText? = n.operatorText? := by
  rw [operatorText?, child?_uncommented h, Option.map_map, operatorText?]
  congr 1
  funext c
  exact text_uncommented c

@[simp] theorem isPlainTemplate_uncommented (n : Node) :
    n.uncommented.isPlainTemplate = n.isPlainTemplate := by
  have hany : n.parts.any (·.kind == .templateSubstitution) =
      n.namedChildren.any (·.kind == .templateSubstitution) := by
    rw [parts, List.any_filter]
    congr 1
    funext c
    by_cases h : c.kind = .templateSubstitution
    · simp [h]
    · simp [h]
  rw [isPlainTemplate, namedChildren_uncommented, List.any_map, kind_uncommented, isPlainTemplate]
  simp only [Function.comp_def, kind_uncommented, hany]

@[simp] theorem keyName_uncommented (n : Node) : n.uncommented.keyName = n.keyName := by
  simp only [keyName, stringValue?, kind_uncommented, isPlainTemplate_uncommented, text_uncommented]

/-! ## Functions of the first child

The functions on trees that look for the first child of some sort do so by a recursion of one shape,
with what is skipped and what is done with the first that is not. -/

section FirstChild

variable {α : Type} {F : List Node → α} {G : Node → α} {d : α}

theorem eq_find? {skip : Node → Bool} (hnil : F [] = d)
    (hcons : ∀ c rest, F (c :: rest) = if skip c then F rest else G c) (l : List Node) :
    F l = ((l.find? fun c => !skip c).map G).getD d := by
  induction l with
  | nil => exact hnil
  | cons c rest ih =>
    rw [hcons, List.find?_cons]
    cases h : skip c with
    | true => simpa using ih
    | false => simp

theorem find?_isNamed (n : Node) :
    n.children.find? (fun c => !(c.kind == .token)) = n.namedChildren.head? := by
  rw [namedChildren, List.head?_filter]
  rfl

theorem find?_part (n : Node) :
    n.children.find? (fun c => c.kind != .token && c.kind != .comment) = n.firstPart? := by
  rw [firstPart?, parts, namedChildren, List.filter_filter, List.head?_filter]
  simp only [Bool.and_comm, isNamed]

/-- A search for the first child that is no token. -/
theorem eq_firstNamed (hnil : F [] = d)
    (hcons : ∀ c rest, F (c :: rest) = if c.kind == .token then F rest else G c) (n : Node) :
    F n.children = (n.namedChildren.head?.map G).getD d := by
  rw [eq_find? hnil hcons, find?_isNamed]

/-- A search for the first child that is neither a token nor a comment. -/
theorem eq_firstPart (hnil : F [] = d)
    (hcons : ∀ c rest,
      F (c :: rest) = if c.kind == .token || c.kind == .comment then F rest else G c) (n : Node) :
    F n.children = (n.firstPart?.map G).getD d := by
  rw [eq_find? hnil hcons, ← find?_part]
  simp only [Bool.not_or, bne]

end FirstChild

/-! ## Wrappers -/

theorem unwrap_eq (n : Node) :
    n.unwrap = if n.kind.isWrapper then (n.namedChildren.head?.map unwrap).getD n else n := by
  have hfirst := eq_firstNamed (F := unwrapFirst?) (G := fun c => some c.unwrap)
    (by rw [unwrapFirst?]) (fun c rest => by rw [unwrapFirst?]) n
  cases n
  rw [unwrap, hfirst]
  cases (namedChildren _).head? <;> rfl

/-- The content of a wrapper in a tidy tree is its first part. -/
theorem Tidy.head?_namedChildren {n : Node} (h : n.Tidy) (hwrapper : n.kind.isWrapper) :
    n.namedChildren.head? = n.firstPart? := by
  rw [firstPart?, parts]
  cases hnamed : n.namedChildren with
  | nil => rfl
  | cons first rest =>
    have hfirst : first.kind ≠ .comment :=
      h.wrapper n n.mem_walk_self hwrapper first (by rw [hnamed]; rfl)
    simp [hfirst]

theorem head?_namedChildren_uncommented (n : Node) :
    n.uncommented.namedChildren.head? = n.firstPart?.map uncommented := by
  rw [namedChildren_uncommented, List.head?_map, firstPart?]

theorem Tidy.unwrap {n : Node} (h : n.Tidy) : n.unwrap.Tidy := by
  induction n using induct_below with
  | _ n ih =>
    rw [unwrap_eq]
    split
    · rename_i hwrapper
      rw [h.head?_namedChildren hwrapper]
      cases hpart : n.firstPart? with
      | none => exact h
      | some c =>
        exact ih c (mem_below_of_mem_parts (List.mem_of_head? hpart)) (h.of_firstPart? hpart)
    · exact h

theorem unwrap_uncommented {n : Node} (h : n.Tidy) :
    n.uncommented.unwrap = n.unwrap.uncommented := by
  induction n using induct_below with
  | _ n ih =>
    rw [unwrap_eq, unwrap_eq n, kind_uncommented]
    split
    · rename_i hwrapper
      rw [head?_namedChildren_uncommented, h.head?_namedChildren hwrapper]
      cases hpart : n.firstPart? with
      | none => rfl
      | some c =>
        exact ih c (mem_below_of_mem_parts (List.mem_of_head? hpart)) (h.of_firstPart? hpart)
    · rfl

/-! ## Walks -/

theorem ownWalkAll_eq (l : List Node) : ownWalkAll l = l.flatMap ownWalk := by
  induction l with
  | nil => rfl
  | cons c rest ih => rw [ownWalkAll_cons, ih, List.flatMap_cons]

theorem visitsAll_eq (above : List Node) (l : List Node) :
    visitsAll above l = l.flatMap (visits above) := by
  induction l with
  | nil => rfl
  | cons c rest ih => rw [visitsAll_cons, ih, List.flatMap_cons]

/-- A traversal finds the same in the children that are left as in all, if it finds nothing in the
comments. -/
theorem flatMap_uncommented {α : Type} {f g : Node → List α} {l : List Node}
    (hkept : ∀ c ∈ l, c.kind ≠ .comment → g c.uncommented = f c)
    (hcomment : ∀ c ∈ l, c.kind = .comment → f c = []) :
    ((l.filter (·.kind != .comment)).map uncommented).flatMap g = l.flatMap f := by
  induction l with
  | nil => rfl
  | cons c rest ih =>
    have hrest := ih (fun m hm => hkept m (List.mem_cons_of_mem _ hm))
      (fun m hm => hcomment m (List.mem_cons_of_mem _ hm))
    rw [List.flatMap_cons, ← hrest]
    by_cases hkind : c.kind = .comment
    · simp [hkind, hcomment c List.mem_cons_self hkind]
    · simp [hkind, hkept c List.mem_cons_self hkind]

theorem any_uncommented {f g : Node → Bool} {l : List Node}
    (hkept : ∀ c ∈ l, c.kind ≠ .comment → g c.uncommented = f c)
    (hcomment : ∀ c ∈ l, c.kind = .comment → f c = false) :
    ((l.filter (·.kind != .comment)).map uncommented).any g = l.any f := by
  have hflat := flatMap_uncommented (g := fun c => if g c then [()] else [])
    (f := fun c => if f c then [()] else []) (l := l) (fun c hc hkind => by rw [hkept c hc hkind])
    (fun c hc hkind => by rw [hcomment c hc hkind]; rfl)
  have hsome (p : Node → Bool) (l : List Node) :
      (l.flatMap fun c => if p c then [()] else []).any (fun _ => true) = l.any p := by
    rw [List.any_flatMap]
    congr 1
    funext c
    cases p c <;> rfl
  rw [← hsome, hflat, hsome]

theorem findSome?_uncommented {α β : Type} {f : Node → Option α} {g : Node → Option β} {φ : α → β}
    {l : List Node} (hkept : ∀ c ∈ l, c.kind ≠ .comment → g c.uncommented = (f c).map φ)
    (hcomment : ∀ c ∈ l, c.kind = .comment → f c = none) :
    ((l.filter (·.kind != .comment)).map uncommented).findSome? g = (l.findSome? f).map φ := by
  rw [List.map_findSome?, ← List.head?_filterMap, ← List.head?_filterMap,
    List.filterMap_eq_flatMap_toList, List.filterMap_eq_flatMap_toList, flatMap_uncommented]
  · intro c hc hkind
    rw [hkept c hc hkind, Function.comp_apply]
  · intro c hc hkind
    rw [Function.comp_apply, hcomment c hc hkind]
    rfl

theorem Tidy.children_comment {n c : Node} (h : n.Tidy) (hc : c ∈ n.children)
    (hkind : c.kind = .comment) : c.children = [] :=
  (h.loose c (mem_walk_of_below (mem_walkAll_child hc)) hkind).2

/-- Comments are leaves, so nothing but themselves is lost with them. -/
theorem walk_uncommented {n : Node} (h : n.Tidy) :
    n.uncommented.walk = (n.walk.filter (·.kind != .comment)).map uncommented := by
  induction n using induct_below with
  | _ n ih =>
    rw [walk_eq, walk_eq n, walkAll_eq, walkAll_eq, children_uncommented,
      List.filter_cons_of_pos (by simp [h.kind]), List.map_cons, List.filter_flatMap,
      List.map_flatMap]
    congr 1
    refine flatMap_uncommented (fun c hc hkind => ?_) fun c hc hkind => ?_
    · exact ih c (mem_walkAll_child hc) (h.of_mem_children hc hkind)
    · simp [walk_eq c, h.children_comment hc hkind, hkind]

theorem ownWalk_uncommented {n : Node} (h : n.Tidy) :
    n.uncommented.ownWalk = (n.ownWalk.filter (·.kind != .comment)).map uncommented := by
  induction n using induct_below with
  | _ n ih =>
    rw [ownWalk_eq, ownWalk_eq n, kind_uncommented, List.filter_cons_of_pos (by simp [h.kind]),
      List.map_cons]
    split
    · rfl
    · rw [ownWalkAll_eq, ownWalkAll_eq, children_uncommented, List.filter_flatMap,
        List.map_flatMap]
      congr 1
      refine flatMap_uncommented (fun c hc hkind => ?_) fun c hc hkind => ?_
      · exact ih c (mem_walkAll_child hc) (h.of_mem_children hc hkind)
      · simp [ownWalk_eq c, h.children_comment hc hkind, hkind]

theorem ownNodes_uncommented {n : Node} (h : n.Tidy) :
    n.uncommented.ownNodes = (n.ownNodes.filter (·.kind != .comment)).map uncommented := by
  rw [ownNodes, ownNodes, ownWalkAll_eq, ownWalkAll_eq, children_uncommented,
    List.filter_flatMap, List.map_flatMap]
  refine flatMap_uncommented (fun c hc hkind => ?_) fun c hc hkind => ?_
  · exact ownWalk_uncommented (h.of_mem_children hc hkind)
  · simp [ownWalk_eq c, h.children_comment hc hkind, hkind]

/-- A visit without the comments in the node and around it. -/
def Visit.uncommented (v : Visit) : Visit := ⟨v.node.uncommented, v.above.map Node.uncommented⟩

theorem visits_uncommented {n : Node} (h : n.Tidy) (above : List Node) :
    n.uncommented.visits (above.map uncommented) =
      ((n.visits above).filter (·.node.kind != .comment)).map Visit.uncommented := by
  induction n using induct_below generalizing above with
  | _ n ih =>
    rw [visits_eq, visits_eq above n, visitsAll_eq, visitsAll_eq, children_uncommented,
      List.filter_cons_of_pos (by simp [h.kind]), List.map_cons, List.filter_flatMap,
      List.map_flatMap]
    congr 1
    refine flatMap_uncommented (fun c hc hkind => ?_) fun c hc hkind => ?_
    · exact ih c (mem_walkAll_child hc) (h.of_mem_children hc hkind) (n :: above)
    · simp [visits_eq, h.children_comment hc hkind, hkind]

theorem ownWalk_sublist (n : Node) : n.ownWalk.Sublist n.walk := by
  induction n using induct_below with
  | _ n ih =>
    rw [ownWalk_eq, walk_eq]
    refine List.Sublist.cons_cons n ?_
    split
    · exact List.nil_sublist _
    · rw [ownWalkAll_eq, walkAll_eq]
      exact List.Sublist.flatMap_right _ fun c hc => ih c (mem_walkAll_child hc)

theorem ownNodes_sublist (n : Node) : n.ownNodes.Sublist n.walk := by
  rw [ownNodes, ownWalkAll_eq, walk_eq, walkAll_eq]
  exact (List.Sublist.flatMap_right _ fun c _ => c.ownWalk_sublist).cons n

theorem mem_walk_of_mem_ownNodes {n m : Node} (h : m ∈ n.ownNodes) : m ∈ n.walk :=
  n.ownNodes_sublist.subset h

end Node
end Transplant
