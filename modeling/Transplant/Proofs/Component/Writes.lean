import Transplant.Component.Outside
import Transplant.Proofs.Adapt.Placement
import Transplant.Proofs.Comments.Descriptor
import Transplant.Proofs.Component.Binding

/-!
# Writes outside the component

A write goes outside the component if no function around it binds the name that its target starts
from.  It is reported unless the name is declared around it, and what counts as declared is more
than what is bound: all identifiers of a pattern do, apart from single names that stand as defaults,
and scopes are told apart by their places, with methods counted as part of what is around them.

So a name can be mistaken for a local one, and the write is missed.  `Mistaken` lists the ways, and
`Outside.unbound_write_reported_iff` says that every other write is reported.

* `Outside.Chain`: chains of members, and the identifiers they start from
* `Outside.written?`: what a node writes to
* `Outside.Binds`, `Outside.Unbound`: the names that functions bind
* `Outside.Mistaken`: the names that they are taken to bind besides
* `Outside.unbound_write_reported_iff`: which writes are reported
* `Outside.default_member_mistaken`: one that is not
-/

namespace Transplant

open Node Expression

namespace Outside

/-! ## Chains of members -/

/-- What a member, an element or a wrapper is built on: its object, or else its first part. -/
def base? (n : Node) : Option Node := (n.child? .object).or n.firstPart?

/-- The chain of members `n` starts from the identifier `r`. -/
inductive Chain : Node → Node → Prop
  | identifier (r : Node) (hkind : r.kind = .identifier) : Chain r r
  | link (n m r : Node) (hlink : isLink n.kind = true) (hbase : base? n = some m)
      (h : Chain m r) : Chain n r

theorem rootOfObject?_eq (n : Node) : rootOfObject? n.children = (n.child? .object).map root? := by
  have hcons (c : Node) (rest : List Node) : rootOfObject? (c :: rest) =
      if !(c.role == some .object) then rootOfObject? rest else some (root? c) := by
    rw [rootOfObject?]
    cases c.role == some .object <;> rfl
  rw [eq_find? (F := rootOfObject?) (G := fun c => some (root? c)) (by rw [rootOfObject?]) hcons,
    child?]
  simp only [Bool.not_not]
  cases n.children.find? fun c => c.role == some .object <;> rfl

theorem rootOfFirst?_eq (n : Node) : rootOfFirst? n.children = n.firstPart?.bind root? := by
  rw [eq_firstPart (F := rootOfFirst?) (G := root?) (d := none) (by rw [rootOfFirst?])
    (fun c rest => by rw [rootOfFirst?])]
  cases n.firstPart? <;> rfl

theorem root?_eq (n : Node) :
    root? n = if isLink n.kind = true then (base? n).bind root?
      else if n.kind == .identifier then some n else none := by
  have hobject := rootOfObject?_eq n
  have hfirst := rootOfFirst?_eq n
  unfold base?
  cases n
  rw [root?, hobject, hfirst]
  cases child? _ .object <;> rfl

theorem base?_below {n m : Node} (h : base? n = some m) : m ∈ walkAll n.children := by
  rcases Option.or_eq_some_iff.mp h with h | ⟨-, h⟩
  · exact mem_walkAll_child (mem_children_of_child? h)
  · exact mem_below_of_mem_parts (List.mem_of_head? h)

/-- The root of an expression is the identifier that it starts from as a chain of members. -/
theorem root?_eq_some_iff {n r : Node} : root? n = some r ↔ Chain n r := by
  constructor
  · intro h
    induction n using induct_below with
    | _ n ih =>
      rw [root?_eq] at h
      split at h
      · rename_i hlink
        obtain ⟨m, hbase, hm⟩ := Option.bind_eq_some_iff.mp h
        exact .link n m r hlink hbase (ih m (base?_below hbase) hm)
      · split at h
        · rename_i hkind
          obtain rfl := Option.some.inj h
          exact .identifier _ (beq_iff_eq.mp hkind)
        · cases h
  · intro h
    induction h with
    | identifier r hkind => rw [root?_eq, hkind]; rfl
    | link n m r hlink hbase _ ih => rw [root?_eq, if_pos hlink, hbase, Option.bind_some, ih]

/-! ## Writes -/

/-- A write: what is reported as its target, the expression that is written to, and how. -/
structure Written where
  target : Node
  place : Node
  kind : WriteKind

/-- What a node writes to: the left side of an assignment, what is updated or deleted, or the object
whose changing method is called. -/
def written? (n : Node) : Option Written :=
  match n.kind with
  | .assignmentExpression | .augmentedAssignmentExpression =>
    (n.child? .left).map fun t => ⟨t, t, .assign⟩
  | .updateExpression => (n.child? .argument).map fun t => ⟨t, t, .update⟩
  | .unaryExpression =>
    if n.operatorText? == some "delete" then (n.child? .argument).map fun t => ⟨t, t, .delete⟩
    else none
  | .callExpression =>
    (n.child? .callee).bind fun callee =>
      if callee.kind == .memberExpression &&
          (callee.child? .property).any (changingMethods.contains ·.text) then
        (callee.child? .object).map fun object => ⟨callee, object, .call⟩
      else none
  | _ => none

theorem Chain.not_pattern {n r : Node} (h : Chain n r) :
    (n.kind == .objectPattern || n.kind == .arrayPattern) = false := by
  cases h with
  | identifier r hkind => rw [hkind]; rfl
  | link n m r hlink =>
    unfold isLink at hlink
    split at hlink
    all_goals first | (rename_i hkind; rw [hkind]; rfl) | cases hlink

theorem targets_of_chain {decls : List (Scope × String)} {v : Visit} {target r : Node}
    (h : Chain target r) :
    targets decls v target = if isLocal decls v r.text = true then [] else [target.text] := by
  rw [targets, h.not_pattern, if_neg (by decide), root?_eq_some_iff.mpr h]

/-- A node that writes through a chain of members reports this one write, unless the name that the
chain starts from is taken for local. -/
theorem writesOf_of_chain {decls : List (Scope × String)} {v : Visit} {w : Written} {r : Node}
    (hw : written? v.node = some w) (h : Chain w.place r) :
    writesOf decls v =
      if isLocal decls v r.text = true then [] else [⟨v.node.line, w.target.text, w.kind⟩] := by
  have hinto {kind : WriteKind} {role : Role}
      (hchild : (v.node.child? role).map (fun t => (⟨t, t, kind⟩ : Written)) = some w) :
      (((v.node.child? role).map (targets decls v)).getD []).map
          (fun target => (⟨v.node.line, target, kind⟩ : OutsideWrite)) =
        if isLocal decls v r.text = true then [] else [⟨v.node.line, w.target.text, w.kind⟩] := by
    obtain ⟨t, ht, rfl⟩ := Option.map_eq_some_iff.mp hchild
    rw [ht, Option.map_some, Option.getD_some, targets_of_chain h]
    split <;> rfl
  unfold written? at hw
  unfold writesOf
  split at hw
  iterate 3
    rename_i hkind
    simp only [hkind]
    exact hinto hw
  · rename_i hkind
    simp only [hkind]
    split at hw
    · rename_i hdelete
      rw [if_pos hdelete]
      exact hinto hw
    · cases hw
  · rename_i hkind
    simp only [hkind]
    obtain ⟨callee, hcallee, hchanges⟩ := Option.bind_eq_some_iff.mp hw
    split at hchanges
    · rename_i hmethod
      obtain ⟨object, hobject, rfl⟩ := Option.map_eq_some_iff.mp hchanges
      simp only [hcallee, hmethod, if_true, hobject, Option.bind_some, root?_eq_some_iff.mpr h]
    · cases hchanges
  · cases hw

/-! ## Names that functions bind -/

/-- The pattern by which a declaration binds names in the scope around it.  A loop over members
declares its variable only with a word in front of it. -/
def binder? (n : Node) : Option Node :=
  match n.kind with
  | .variableDeclarator | .functionDeclaration | .generatorFunctionDeclaration | .classDeclaration
  | .abstractClassDeclaration => n.child? .name
  | .catchClause => n.child? .parameter
  | .forInStatement => if (n.child? .kind).isSome then n.child? .left else none
  | _ => none

/-- The function in whose scope a place is. -/
def scope? (v : Visit) : Option Node := v.above.find? (·.kind.isScope)

/-- A function of a component binds a name: by a parameter, or by a declaration in its scope. -/
inductive Binds (callable fn : Node) (name : String) : Prop
  | parameter (h : name ∈ Function.bound fn)
  | declaration (u : Visit) (hu : u ∈ callable.visits []) (hscope : scope? u = some fn)
      (pattern : Node) (hpattern : binder? u.node = some pattern)
      (hname : name ∈ Binding.names pattern)

/-- No function around a place binds the name. -/
def Unbound (callable : Node) (v : Visit) (name : String) : Prop :=
  ∀ fn ∈ v.above, fn.kind.isScope = true → ¬Binds callable fn name

/-! ## Names that they are taken to bind -/

/-- The function in whose scope a place is taken to be. -/
def function? (v : Visit) : Option Node := v.above.find? (·.kind.isFunction)

/-- A name is mistaken for one that a function of a component binds. -/
inductive Mistaken (site : Site) (fn : Node) (name : String) : Prop
  /-- A parameter of the function only reads the name. -/
  | parameter (p : Node) (hp : p ∈ Function.params fn) (hname : name ∈ namesIn p)
      (hread : name ∉ Binding.names p)
  /-- It stands in a parameter of another function at the same place. -/
  | elsewhere (other : Node) (hmem : other ∈ site.callable.walk)
      (hfn : other.kind.isFunction = true) (hplace : other.span = fn.span) (hne : other ≠ fn)
      (p : Node) (hp : p ∈ Function.params other) (hname : name ∈ namesIn p)
  /-- It stands in a declaration that only reads it, in the head of a loop that declares nothing, or
  in a declaration that belongs to another scope: to a method, or to a function at the same
  place. -/
  | declaration (u : Visit) (hu : u ∈ site.callable.visits []) (holder : Node)
      (hholder : function? u = some holder) (hplace : holder.span = fn.span) (pattern : Node)
      (hpattern : declaredPattern? site u.node = some pattern) (hname : name ∈ namesIn pattern)
      (hwhy : name ∉ Binding.names pattern ∨
        (u.node.kind = .forInStatement ∧ u.node.child? .kind = none) ∨ scope? u ≠ some fn)

/-- Some function around a place is mistaken to bind the name. -/
def MistakenAround (site : Site) (v : Visit) (name : String) : Prop :=
  ∃ fn ∈ v.above, fn.kind.isFunction = true ∧ Mistaken site fn name

theorem mem_declaredBy_iff {site : Site} {u : Visit} {scope : Scope} {name : String} :
    (scope, name) ∈ declaredBy site u ↔
      (u.node.kind.isFunction = true ∧ u.node.span = scope ∧
        ∃ p ∈ Function.params u.node, name ∈ namesIn p) ∨
      ∃ holder, function? u = some holder ∧ holder.span = scope ∧
        ∃ pattern, declaredPattern? site u.node = some pattern ∧ name ∈ namesIn pattern := by
  have hholder : (scopesAround u).head? = (function? u).map span := by
    rw [scopesAround, List.head?_map, List.head?_filter, function?]
  have hpair {place : Scope} {l : List String} :
      (scope, name) ∈ l.map (place, ·) ↔ place = scope ∧ name ∈ l := by
    rw [List.mem_map]
    constructor
    · rintro ⟨a, ha, hmade⟩
      obtain ⟨hplace, rfl⟩ := Prod.mk.inj hmade
      exact ⟨hplace, ha⟩
    · rintro ⟨rfl, hname⟩
      exact ⟨name, hname, rfl⟩
  rw [declaredBy, List.mem_append, hholder]
  refine or_congr ?_ ?_
  · split
    · rename_i hfn
      simp only [List.mem_flatMap, hpair, hfn, true_and]
      exact ⟨fun ⟨p, hp, hplace, hname⟩ => ⟨hplace, p, hp, hname⟩,
        fun ⟨hplace, p, hp, hname⟩ => ⟨p, hp, hplace, hname⟩⟩
    · rename_i hfn
      exact iff_of_false List.not_mem_nil fun h => hfn h.1
  · cases function? u with
    | none => simp
    | some holder =>
      cases declaredPattern? site u.node with
      | none => simp
      | some pattern => simp [hpair]

/-- A scope is taken to declare a name by a parameter of the function at its place, or by a
declaration that a function at its place holds. -/
theorem mem_declared_iff {site : Site} {scope : Scope} {name : String} :
    (scope, name) ∈ declared site ↔
      (∃ fn ∈ site.callable.walk, fn.kind.isFunction = true ∧ fn.span = scope ∧
        ∃ p ∈ Function.params fn, name ∈ namesIn p) ∨
      ∃ u ∈ site.callable.visits [], ∃ holder, function? u = some holder ∧ holder.span = scope ∧
        ∃ pattern, declaredPattern? site u.node = some pattern ∧ name ∈ namesIn pattern := by
  rw [declared, List.mem_flatMap]
  constructor
  · rintro ⟨u, hu, hname⟩
    rcases mem_declaredBy_iff.mp hname with hparam | hdecl
    · exact .inl ⟨u.node, mem_walk_of_mem_visits hu, hparam⟩
    · exact .inr ⟨u, hu, hdecl⟩
  · rintro (⟨fn, hfn, hparam⟩ | ⟨u, hu, hdecl⟩)
    · obtain ⟨u, hu, rfl⟩ := exists_visit hfn []
      exact ⟨u, hu, mem_declaredBy_iff.mpr (.inl hparam)⟩
    · exact ⟨u, hu, mem_declaredBy_iff.mpr (.inr hdecl)⟩

theorem isLocal_iff {site : Site} {v : Visit} {name : String} :
    isLocal (declared site) v name = true ↔
      ∃ fn ∈ v.above, fn.kind.isFunction = true ∧ (fn.span, name) ∈ declared site := by
  simp only [isLocal, scopesAround, List.any_map, List.any_filter, List.any_eq_true,
    Function.comp_apply, Bool.and_eq_true, List.contains_iff_mem]

/-- A declaration binds the names of its pattern unless it is the head of a loop without a word. -/
theorem binder?_of_declaredPattern? {site : Site} {n pattern : Node}
    (h : declaredPattern? site n = some pattern)
    (hword : ¬(n.kind = .forInStatement ∧ n.child? .kind = none)) : binder? n = some pattern := by
  have hother {isComponent : Bool} {o : Option Node}
      (ho : (if isComponent = true then none else o) = some pattern) : o = some pattern := by
    split at ho
    · cases ho
    · exact ho
  unfold declaredPattern? at h
  unfold binder?
  split at h
  · rename_i hkind
    simp only [hkind]
    exact h
  iterate 3
    rename_i hkind
    simp only [hkind] at h ⊢
    exact hother h
  · rename_i hkind
    simp only [hkind]
    exact h
  · rename_i hkind
    simp only [hkind]
    rw [if_pos (Option.isSome_iff_ne_none.mpr fun hnone => hword ⟨hkind, hnone⟩)]
    exact h
  · cases h

/-- A name that no function around a place binds is taken for local only by mistake. -/
theorem isLocal_iff_mistaken {site : Site} {v : Visit} {name : String}
    (hv : v ∈ site.callable.visits []) (hunbound : Unbound site.callable v name) :
    isLocal (declared site) v name = true ↔ MistakenAround site v name := by
  rw [isLocal_iff, MistakenAround]
  refine exists_congr fun fn => and_congr_right fun habove => and_congr_right fun hfn => ?_
  have hbinds := hunbound fn habove (Kind.isScope_of_isFunction hfn)
  rw [mem_declared_iff]
  constructor
  · rintro (⟨other, hmem, hother, hplace, p, hp, hname⟩ |
      ⟨u, hu, holder, hholder, hplace, pattern, hpattern, hname⟩)
    · by_cases hsame : other = fn
      · rw [hsame] at hp
        exact .parameter p hp hname fun hbound =>
          hbinds (.parameter (List.mem_flatMap.mpr ⟨p, hp, hbound⟩))
      · exact .elsewhere other hmem hother hplace hsame p hp hname
    · refine .declaration u hu holder hholder hplace pattern hpattern hname ?_
      by_contra hnone
      obtain ⟨hname', hword, hscope⟩ := not_or.mp hnone |>.imp_right not_or.mp
      exact hbinds (.declaration u hu (not_not.mp hscope) pattern
        (binder?_of_declaredPattern? hpattern hword) (not_not.mp hname'))
  · rintro (⟨p, hp, hname, -⟩ | ⟨other, hmem, hother, hplace, -, p, hp, hname⟩ |
      ⟨u, hu, holder, hholder, hplace, pattern, hpattern, hname, -⟩)
    · obtain ⟨inner, hinner, hwalk⟩ := above_of_mem_visits hv
      rw [hinner, List.append_nil] at habove
      exact .inl ⟨fn, hwalk fn habove, hfn, rfl, p, hp, hname⟩
    · exact .inl ⟨other, hmem, hother, hplace, p, hp, hname⟩
    · exact .inr ⟨u, hu, holder, hholder, hplace, pattern, hpattern, hname⟩

/-- **Which writes outside are reported.**  Let a node of a component write through a chain of
members, and let no function around it bind the identifier that the chain starts from.  The node
reports the write, with its line and its target, exactly if no function around it is mistaken to
bind the identifier; and what a node reports is reported of the component. -/
theorem unbound_write_reported_iff {site : Site} {v : Visit} {w : Written} {r : Node}
    (hv : v ∈ site.callable.visits []) (hw : written? v.node = some w) (hchain : Chain w.place r)
    (hunbound : Unbound site.callable v r.text) :
    (⟨v.node.line, w.target.text, w.kind⟩ ∈ writesOf (declared site) v ↔
      ¬MistakenAround site v r.text) ∧
    (¬MistakenAround site v r.text →
      ⟨v.node.line, w.target.text, w.kind⟩ ∈ ofComponent site) := by
  have hreported : ⟨v.node.line, w.target.text, w.kind⟩ ∈ writesOf (declared site) v ↔
      ¬MistakenAround site v r.text := by
    rw [writesOf_of_chain hw hchain, ← isLocal_iff_mistaken hv hunbound]
    split
    · rename_i hlocal
      exact iff_of_false List.not_mem_nil fun h => h hlocal
    · rename_i hlocal
      exact iff_of_true List.mem_cons_self hlocal
  refine ⟨hreported, fun h => ?_⟩
  exact mem_eachOnce.mpr (List.mem_flatMap.mpr ⟨v, hv, hreported.mpr h⟩)

/-- No function that stands where one stands around a place binds the name. -/
def UnboundInPlaces (callable : Node) (v : Visit) (name : String) : Prop :=
  ∀ fn ∈ v.above, fn.kind.isScope = true → name ∉ Function.bound fn ∧
    ∀ u ∈ callable.visits [], (scope? u).any (·.span == fn.span) = true →
      (binder? u.node).all (name ∉ Binding.names ·) = true

instance (callable : Node) (v : Visit) (name : String) :
    Decidable (UnboundInPlaces callable v name) :=
  inferInstanceAs (Decidable (∀ fn ∈ v.above, fn.kind.isScope = true → _))

theorem UnboundInPlaces.unbound {callable : Node} {v : Visit} {name : String}
    (h : UnboundInPlaces callable v name) : Unbound callable v name := by
  rintro fn hfn hkind (hbound | ⟨u, hu, hscope, pattern, hpattern, hname⟩)
  · exact (h fn hfn hkind).1 hbound
  · have hall := (h fn hfn hkind).2 u hu (by rw [hscope]; exact beq_self_eq_true fn.span)
    rw [hpattern] at hall
    exact of_decide_eq_true hall hname

/-- A component that counts outside of itself, and in a callback with a parameter of that name. -/
def counting : String :=
  "export const A = () => \x7b f((n) => n++); n += 2; return <p/>; \x7d;\n"

/-- The parameter is bound in its own function only, and the write to the variable of the module is
reported. -/
theorem counting_reported :
    ∃ s site v w r, Source.parse counting "A.jsx" = .ok s ∧ Site.locate s.root "A.jsx" = .ok site ∧
      v ∈ site.callable.visits [] ∧ v.node.text = "n += 2" ∧ written? v.node = some w ∧
      Chain w.place r ∧ Unbound site.callable v r.text ∧
      ⟨v.node.line, w.target.text, w.kind⟩ ∈ ofComponent site := by
  obtain ⟨s, site, hs, hsite, v, hv, htext, hwrites⟩ := Site.exists_site counting "A.jsx"
    (P := fun _ site => ∃ v ∈ site.callable.visits [], v.node.text = "n += 2" ∧
      (written? v.node).any (fun w => (root? w.place).any fun r =>
        decide (isLocal (declared site) v r.text = false ∧
          UnboundInPlaces site.callable v r.text)) = true)
    (by decide +kernel)
  obtain ⟨w, hw, hroot⟩ := (Option.any_eq_true _ _).mp hwrites
  obtain ⟨r, hr, hfound⟩ := (Option.any_eq_true _ _).mp hroot
  obtain ⟨hlocal, hplaces⟩ := of_decide_eq_true hfound
  have hunbound := hplaces.unbound
  have hmistaken : ¬MistakenAround site v r.text := by
    rw [← isLocal_iff_mistaken hv hunbound, hlocal]
    exact Bool.false_ne_true
  exact ⟨s, site, v, w, r, hs, hsite, hv, htext, hw, root?_eq_some_iff.mp hr, hunbound,
    (unbound_write_reported_iff hv hw (root?_eq_some_iff.mp hr) hunbound).2 hmistaken⟩

/-- A component that reads a member of an object of the module as a default, and writes to
another. -/
def defaulted : String :=
  "export const A = (\x7b a = cfg.x \x7d) => \x7b cfg.count = 1; return <p/>; \x7d;\n"

/-- The default makes the object a local name, and the write is missed. -/
theorem default_member_mistaken :
    ∃ s site v w r, Source.parse defaulted "A.jsx" = .ok s ∧ Site.locate s.root "A.jsx" = .ok site ∧
      v ∈ site.callable.visits [] ∧ written? v.node = some w ∧ w.target.text = "cfg.count" ∧
      Chain w.place r ∧ Unbound site.callable v r.text ∧ ofComponent site = [] := by
  obtain ⟨s, site, hs, hsite, hnone, v, hv, hwrites⟩ := Site.exists_site defaulted "A.jsx"
    (P := fun _ site => ofComponent site = [] ∧ ∃ v ∈ site.callable.visits [],
      (written? v.node).any (fun w => (root? w.place).any fun r =>
        decide (w.target.text = "cfg.count" ∧ UnboundInPlaces site.callable v r.text)) = true)
    (by decide +kernel)
  obtain ⟨w, hw, hroot⟩ := (Option.any_eq_true _ _).mp hwrites
  obtain ⟨r, hr, hfound⟩ := (Option.any_eq_true _ _).mp hroot
  obtain ⟨htarget, hplaces⟩ := of_decide_eq_true hfound
  exact ⟨s, site, v, w, r, hs, hsite, hv, hw, htarget, root?_eq_some_iff.mp hr,
    hplaces.unbound, hnone⟩

end Outside
end Transplant
