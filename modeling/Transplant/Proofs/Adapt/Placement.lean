import Transplant.Component.Site
import Transplant.Proofs.Grammar.ComponentNames
import Transplant.Proofs.Grammar.Layout

/-!
# Where a component stands in its file

The function of a component stands in a statement of the module that declares or exports something,
and its default props are assigned in a statement that is an expression.  So these are two
statements, and whatever is changed in the one is away from the other.

* `Site.Stands`: a function stands in a statement that is no expression
* `Site.stands_callable`, `Site.statement_mem_parts`: the component that is found
* `Site.Defaults.Lies`, `Site.lies_of_defaults?`: the object of default props
* `Function.pattern_mem_walk`: the parameter of a function is part of the function
-/

namespace Transplant

open Node

/-! ## Contents of a node -/

theorem Node.unwrap_mem_walk (n : Node) : n.unwrap ∈ n.walk := by
  induction n using induct_below with
  | _ n ih =>
    rw [unwrap_eq]
    split
    · cases hfirst : n.namedChildren.head? with
      | none => exact n.mem_walk_self
      | some c =>
        have hc := mem_below_of_head? hfirst
        exact walk_trans (mem_walk_of_below hc) (ih c hc)
    · exact n.mem_walk_self

namespace Function

variable {fn param : Node}

theorem mem_walk_of_mem_params (h : param ∈ params fn) : param ∈ fn.walk := by
  unfold params at h
  split at h
  · rename_i single hsingle
    exact List.mem_singleton.mp h ▸ mem_walk_of_child? hsingle
  · cases hlist : fn.child? .parameters with
    | none =>
      rw [hlist] at h
      cases h
    | some list =>
      rw [hlist] at h
      exact walk_trans (mem_walk_of_child? hlist) (mem_walk_of_mem_parts h)

theorem getD_child?_mem_walk (n : Node) (r : Role) : (n.child? r).getD n ∈ n.walk := by
  cases hc : n.child? r with
  | none => exact n.mem_walk_self
  | some c => exact mem_walk_of_child? hc

theorem bare_mem_walk (n : Node) : bare n ∈ n.walk := by
  unfold bare
  split
  · exact getD_child?_mem_walk n .left
  · exact n.mem_walk_self

/-- The pattern of a parameter is part of the parameter. -/
theorem pattern_mem_walk (param : Node) : (pattern param).1 ∈ param.walk := by
  rw [pattern_eq]
  split
  · exact walk_trans (getD_child?_mem_walk param .pattern) (bare_mem_walk _)
  · exact bare_mem_walk param

end Function

/-! ## The function of a component -/

namespace Site

variable {root fn : Node}

/-- A function stands in a statement of the module that is no expression. -/
def Stands (root fn : Node) : Prop :=
  ∃ part ∈ root.parts, part.kind ≠ .expressionStatement ∧ fn ∈ part.walk

/-- A definition of the module: its function stands in such a statement, and what is said to hold it
is a statement. -/
structure Definition.Placed (root : Node) (d : Definition) : Prop where
  callable : ∀ fn, d.callable = some fn → Stands root fn
  statement : d.statement ∈ root.parts

/-- The definitions of a module are placed. -/
def Placed (root : Node) (defs : Definitions) : Prop :=
  ∀ name d, defs.get? name = some d → d.Placed root

theorem placed_empty (root : Node) : Placed root Table.empty := fun _ _ h => by cases h

theorem Placed.put {defs : Definitions} (h : Placed root defs) (name : String) {d : Definition}
    (hd : d.Placed root) : Placed root (defs.put name d) := by
  intro k e hk
  rw [Table.get?_put] at hk
  split at hk
  · exact Option.some.inj hk ▸ hd
  · exact h k e hk

theorem stands_resolve {defs : Definitions} (hdefs : Placed root defs) {part n : Node}
    (hpart : part ∈ root.parts) (hkind : part.kind ≠ .expressionStatement) (hn : n ∈ part.walk)
    (hfn : (resolve defs n).1 = some fn) : Stands root fn := by
  rcases mem_walk_of_resolve hfn with ⟨-, hwalk⟩ | ⟨name, d, hd, hcallable⟩
  · exact ⟨part, hpart, hkind, walk_trans hn hwalk⟩
  · exact (hdefs name d hd).callable fn hcallable

theorem placed_declareVariable {holder declarator : Node} {acc : Definitions × List String}
    (hdefs : Placed root acc.1) (hholder : holder ∈ root.parts)
    (hkind : holder.kind ≠ .expressionStatement) (hmem : declarator ∈ holder.walk) :
    Placed root (declareVariable holder acc declarator).1 := by
  unfold declareVariable
  split
  · exact hdefs
  split
  · exact hdefs
  split
  · exact hdefs
  · refine hdefs.put _ ⟨fun fn hfn => ?_, hholder⟩
    dsimp only at hfn
    split at hfn
    · rename_i value hvalue
      exact stands_resolve hdefs hholder hkind (walk_trans hmem (mem_walk_of_child? hvalue)) hfn
    · cases hfn

theorem placed_declare {defs : Definitions} (hdefs : Placed root defs) {statement holder : Node}
    (hholder : holder ∈ root.parts) (hkind : holder.kind ≠ .expressionStatement)
    (hmem : statement ∈ holder.walk) : Placed root (declare defs statement holder).1 := by
  have hvariables :
      Placed root (statement.parts.foldl (declareVariable holder) (defs, [])).1 :=
    List.foldlRecOn (motive := fun acc : Definitions × List String => Placed root acc.1) _ _ hdefs
      fun _ hacc _ hc => placed_declareVariable hacc hholder hkind
        (walk_trans hmem (mem_walk_of_mem_parts hc))
  unfold declare
  split
  case h_1 | h_2 =>
    split
    · refine hdefs.put _ ⟨fun fn hfn => ?_, hholder⟩
      exact Option.some.inj hfn ▸ ⟨holder, hholder, hkind, hmem⟩
    · exact hdefs
  case h_3 =>
    split
    · exact hdefs.put _ ⟨fun fn hfn => (by cases hfn), hholder⟩
    · exact hdefs
  case h_4 | h_5 => exact hvariables
  case h_6 => exact hdefs

/-- What the statements of a module define and export is placed. -/
structure Surface.Placed (root : Node) (s : Surface) : Prop where
  defs : Site.Placed root s.defs
  exports : ∀ e ∈ s.exports, ∀ d, e.anonymous = some d → d.Placed root

/-- The step: one more statement. -/
theorem Surface.Placed.add {s : Surface} (hs : s.Placed root) {statement : Node}
    (hstatement : statement ∈ root.parts) : (s.add statement).Placed root := by
  have hmore : ∀ {defs : Definitions} {l : List Export}, Site.Placed root defs →
      (∀ e ∈ l, ∀ d, e.anonymous = some d → d.Placed root) →
        Surface.Placed root ⟨defs, s.exports ++ l⟩ := fun hdefs hl =>
    ⟨hdefs, fun e he => (List.mem_append.mp he).elim (hs.exports e) (hl e)⟩
  have hnames : ∀ {l : List String} (kind : ExportKind),
      ∀ e ∈ l.map (fun name => (⟨some name, kind, none⟩ : Export)), ∀ d, e.anonymous = some d →
        d.Placed root := by
    intro l kind e he d hd
    obtain ⟨name, -, rfl⟩ := List.mem_map.mp he
    cases hd
  unfold Surface.add
  split
  · refine ⟨?_, hs.exports⟩
    by_cases hkind : statement.kind = .expressionStatement
    · rw [declare, hkind]
      exact hs.defs
    · exact placed_declare hs.defs hstatement hkind statement.mem_walk_self
  · rename_i hexport
    have hkind : statement.kind ≠ .expressionStatement := by
      rw [bne_iff_ne, not_not] at hexport
      rw [hexport]
      decide
    dsimp only
    split
    · rename_i declaration _ hdeclaration
      exact hmore (placed_declare hs.defs hstatement hkind (mem_walk_of_child? hdeclaration))
        (hnames _)
    · rename_i value _ hvalue
      split
      · exact hmore hs.defs (hnames (l := [_]) _)
      · refine hmore hs.defs (List.forall_mem_singleton.mpr fun d hd => ?_)
        obtain rfl := Option.some.inj hd
        exact ⟨fun fn hfn => stands_resolve hs.defs hstatement hkind (mem_walk_of_child? hvalue) hfn,
          hstatement⟩
    · split
      · exact hs
      · refine hmore hs.defs fun e he d hd => ?_
        rw [anonymous_of_mem_listedExports he] at hd
        cases hd

/-- The run: all statements. -/
theorem placed_surface (root : Node) : (surface root).Placed root :=
  List.foldlRecOn (motive := Surface.Placed root) _ _ ⟨placed_empty root, nofun⟩
    fun _ hs _ hstatement => hs.add hstatement

/-- A candidate whose function stands in a statement that is no expression. -/
structure Candidate.Placed (root : Node) (c : Candidate) : Prop where
  callable : Stands root c.callable
  statement : c.statement ∈ root.parts

theorem placed_addCandidate {defs : Definitions} (hdefs : Placed root defs)
    {found : List Candidate} (hfound : ∀ c ∈ found, c.Placed root) {e : Export}
    (he : ∀ d, e.anonymous = some d → d.Placed root) :
    ∀ c ∈ addCandidate defs found e, c.Placed root := by
  unfold addCandidate
  split
  · exact hfound
  · rename_i d hd
    have hplaced : d.Placed root := by
      cases hanonymous : e.anonymous with
      | some own =>
        rw [hanonymous] at hd
        exact Option.some.inj hd ▸ he own hanonymous
      | none =>
        rw [hanonymous] at hd
        exact hdefs _ d hd
    split
    · exact hfound
    · rename_i callable hcallable
      split
      · exact hfound
      split
      · intro c hc
        obtain ⟨c', hc', rfl⟩ := List.mem_map.mp hc
        split
        · exact ⟨(hfound c' hc').callable, (hfound c' hc').statement⟩
        · exact hfound c' hc'
      · refine List.forall_mem_append.mpr ⟨hfound, List.forall_mem_singleton.mpr ?_⟩
        exact ⟨hplaced.callable callable hcallable, hplaced.statement⟩

theorem placed_candidates (root : Node) : ∀ c ∈ candidates root, c.Placed root :=
  have hsurface := placed_surface root
  List.foldlRecOn (motive := fun found => ∀ c ∈ found, Candidate.Placed root c) _ _ nofun
    fun _ hfound e he => placed_addCandidate hsurface.defs hfound (hsurface.exports e he)

/-- The component of a file has been a candidate. -/
theorem placed_locate {path : String} {site : Site} (h : locate root path = .ok site) :
    Stands root site.callable ∧ site.statement ∈ root.parts := by
  unfold locate at h
  split at h
  · cases h
  · rename_i c hc
    have hplaced := placed_candidates root c (hc ▸ List.mem_singleton_self c)
    rw [← Except.ok.inj h]
    exact ⟨hplaced.callable, hplaced.statement⟩
  · cases h

/-! ## The object of default props -/

/-- The object of default props is part of a statement that is an expression. -/
structure Defaults.Lies (root : Node) (d : Defaults) : Prop where
  statement : d.statement ∈ root.parts
  isExpression : d.statement.kind = .expressionStatement
  object : d.object ∈ d.statement.walk

theorem lies_of_defaultsIn? {names : List String} {statement : Node} {d : Defaults}
    (hstatement : statement ∈ root.parts) (h : defaultsIn? names statement = some d) :
    d.Lies root := by
  unfold defaultsIn? at h
  simp only [bind, Option.bind_none] at h
  split at h
  · cases h
  · rename_i hkind
    obtain ⟨expression, hexpression, h⟩ := Option.bind_eq_some_iff.mp h
    obtain ⟨part, hpart, rfl⟩ := Option.map_eq_some_iff.mp hexpression
    split at h
    · cases h
    · obtain ⟨left, -, h⟩ := Option.bind_eq_some_iff.mp h
      obtain ⟨right, hright, h⟩ := Option.bind_eq_some_iff.mp h
      obtain ⟨value, hvalue, rfl⟩ := Option.map_eq_some_iff.mp hright
      split at h
      · cases h
      · obtain ⟨object, -, h⟩ := Option.bind_eq_some_iff.mp h
        obtain ⟨property, -, h⟩ := Option.bind_eq_some_iff.mp h
        split at h
        · cases h
        · rw [← Option.some.inj h]
          refine ⟨hstatement, by simpa using hkind, ?_⟩
          have hpart' := mem_walk_of_mem_children (mem_children_of_firstPart? hpart)
          have hvalue' := walk_trans part.unwrap_mem_walk (mem_walk_of_child? hvalue)
          exact walk_trans hpart' (walk_trans hvalue' value.unwrap_mem_walk)

theorem lies_of_defaults? {site : Site} {d : Defaults} (h : defaults? root site = some d) :
    d.Lies root := by
  obtain ⟨statement, hstatement, hd⟩ := List.exists_of_findSome?_eq_some h
  exact lies_of_defaultsIn? hstatement hd

end Site
end Transplant
