import Transplant.Proofs.Comments.Descriptor
import Transplant.Proofs.Component.Rendering

/-!
# What a gate hides

A gate names a prop and the truth value for which the component shows something.  It is read off one
statement of the body: the first that returns, or that returns nothing in a case of a prop.  With
the other truth value this statement shows nothing (`Visibility.returns_hidden_of_decides`), but the
statements in front of it have not been looked at, and they may return too.  By
`Visibility.gate_hides_iff` a gate hides the whole component exactly if what they return is hidden.

* `Visibility.decides`, `Visibility.front`: the statement with the gate, and those in front of it
* `Visibility.gate_hides_iff`: when a gate hides the component
* `Visibility.hidden_of_no_return`: gates with no `return` in front of them
* `Visibility.markup_in_front`: a gate with markup in front of it
-/

namespace Transplant

open Node

theorem Node.unwrap_unwrap (n : Node) : n.unwrap.unwrap = n.unwrap := by
  induction n using induct_below with
  | _ n ih =>
    rw [unwrap_eq n]
    split
    · rename_i hwrapper
      cases hfirst : n.namedChildren.head? with
      | none =>
        rw [Option.map_none, Option.getD_none, unwrap_eq, if_pos hwrapper, hfirst]
        rfl
      | some c =>
        exact ih c (mem_below_of_head? hfirst)
    · rename_i hwrapper
      rw [unwrap_eq, if_neg hwrapper]

namespace Visibility

open Expression Rendering

variable {x : Props.Extracted} {prop : String} {truth : Bool}

/-! ## Conditions on a prop -/

theorem readsProp_of_reference? {e : Node} (h : x.reference? e = some prop) :
    readsProp x prop e.content = true := by
  unfold Props.Extracted.reference? at h
  dsimp only at h
  split at h
  · rename_i hname
    obtain ⟨hkind, hknown⟩ := Bool.and_eq_true_iff.mp hname
    have hcontent := content_eq_unwrap (n := e) (by rw [beq_iff_eq.mp hkind]; decide)
    obtain rfl := Option.some.inj h
    rw [readsProp, hcontent, hkind, hknown, beq_self_eq_true]
    rfl
  · split at h
    · rename_i hkind
      have hcontent := content_eq_unwrap (n := e) (by rw [beq_iff_eq.mp hkind]; decide)
      split at h
      · rename_i param object property hparam hobject hproperty
        split at h
        · rename_i hobjectText
          obtain rfl := Option.some.inj h
          rw [readsProp, hcontent, hkind, hparam, hobject, hproperty]
          simp [hobjectText]
        · cases h
      · cases h
    · cases h

/-- Only a name or a member reads a prop. -/
theorem readsProp_eq_false {n : Node} (h : n.kind ∉ [Kind.identifier, .memberExpression]) :
    readsProp x prop n = false := by
  obtain ⟨hname, hmember⟩ := not_or.mp (List.mem_cons.not.mp h)
  rw [readsProp, beq_eq_false_iff_ne.mpr hname,
    beq_eq_false_iff_ne.mpr (List.mem_singleton.not.mp hmember)]
  rfl

/-- The form of an expression that is found by unwrapping and is no name and no member. -/
theorem content_of_kind {e : Node} {k : Kind} (hkind : e.unwrap.kind = k)
    (hk : k ∉ [Kind.comment, .identifier, .memberExpression]) :
    e.content = e.unwrap ∧ readsProp x prop e.unwrap = false := by
  obtain ⟨hcomment, hreads⟩ := not_or.mp (List.mem_cons.not.mp hk)
  exact ⟨content_eq_unwrap (hkind ▸ hcomment), readsProp_eq_false (hkind ▸ hreads)⟩

/-- A condition on a prop has the form of the prop or of its negation. -/
theorem form_of_subject? {c : Node} {b : Bool} (h : subject? x c = some (prop, b)) :
    form x prop c = if b = true then .prop else .negation := by
  unfold subject? at h
  dsimp only at h
  split at h
  · rename_i hkind
    have hkind := beq_iff_eq.mp hkind
    split at h
    · rename_i hoperator
      obtain ⟨_, hbind, hpair⟩ := Option.map_eq_some_iff.mp h
      obtain ⟨a, ha, hreads⟩ := Option.bind_eq_some_iff.mp hbind
      obtain ⟨rfl, rfl⟩ := Prod.mk.inj hpair
      obtain ⟨hcontent, hfalse⟩ := content_of_kind hkind (by decide)
      rw [form, hcontent, hfalse]
      simp [hkind, hoperator, ha, readsProp_of_reference? hreads]
    · cases h
  · obtain ⟨_, hreads, hpair⟩ := Option.map_eq_some_iff.mp h
    obtain ⟨rfl, rfl⟩ := Prod.mk.inj hpair
    have hread := readsProp_of_reference? hreads
    -- what reads the prop is no comment, so nothing is left to be unwrapped
    have hcomment : c.unwrap.kind ≠ .comment := by
      intro hcomment
      have hcontent : c.unwrap.content = c.unwrap := by rw [content_eq, hcomment]; rfl
      rw [hcontent, readsProp_eq_false (by rw [hcomment]; decide)] at hread
      cases hread
    have hinner := content_eq_unwrap (n := c.unwrap) (by rw [unwrap_unwrap]; exact hcomment)
    rw [hinner, unwrap_unwrap, ← content_eq_unwrap hcomment] at hread
    rw [form]
    exact if_pos hread

/-- A condition on a prop holds exactly where the prop has the truth value that it asks for. -/
theorem eq_of_test {c : Node} {b value : Bool} (h : subject? x c = some (prop, b))
    (htest : Test x prop truth c value) : value = (truth == b) := by
  rw [Test, form_of_subject? h] at htest
  cases b
  · exact htest.trans (by cases truth <;> rfl)
  · exact htest.trans (by cases truth <;> rfl)

/-- A condition on a prop that fails gives a gate. -/
theorem gives_gate {c : Node} {o : Rendered} (h : subject? x c = some (prop, !truth))
    (hgives : Gives x prop truth (form x prop c) o) : o = .gate := by
  rw [form_of_subject? h] at hgives
  cases truth
  · cases hgives
    rfl
  · cases hgives
    rfl

theorem form_of_isNothing {e : Node} (h : isNothing e = true) : form x prop e = .nothing := by
  have hkind : e.unwrap.kind = .nullLiteral ∨ e.unwrap.kind = .undefinedLiteral := by
    simpa only [isNothing, Bool.or_eq_true, beq_iff_eq] using h
  rcases hkind with hkind | hkind
  all_goals
    obtain ⟨hcontent, hfalse⟩ := content_of_kind hkind (by decide)
    rw [form, hcontent, hfalse]
    simp [hkind]

theorem eq_nothing_of_isNothing {e : Node} {o : Rendered} (h : isNothing e = true)
    (hgives : Gives x prop truth (form x prop e) o) : o = .nothing := by
  rw [form_of_isNothing h] at hgives
  cases hgives
  rfl

/-! ## Returned expressions -/

theorem form_of_ternary {e c a b : Node} (hkind : e.unwrap.kind = .ternaryExpression)
    (hc : e.unwrap.child? .condition = some c) (ha : e.unwrap.child? .consequence = some a)
    (hb : e.unwrap.child? .alternative = some b) : form x prop e = .choice c a b := by
  obtain ⟨hcontent, hfalse⟩ := content_of_kind hkind (by decide)
  rw [form, hcontent, hfalse]
  simp [hkind, hc, ha, hb]

theorem form_of_conjunction {e l r : Node} (hkind : e.unwrap.kind = .binaryExpression)
    (hop : e.unwrap.operatorText? = some "&&") (hl : e.unwrap.child? .left = some l)
    (hr : e.unwrap.child? .right = some r) : form x prop e = .logical "&&" l r := by
  obtain ⟨hcontent, hfalse⟩ := content_of_kind hkind (by decide)
  rw [form, hcontent, hfalse]
  simp [hkind, hop, hl, hr]

/-- An expression with a gate gives nothing that is shown where the prop has the other value. -/
theorem hidden_of_ofExpression? {e : Node} {gate : Gate} {o : Rendered}
    (h : ofExpression? x e = some gate)
    (hgives : Gives x gate.prop (!gate.rendersWhen) (form x gate.prop e) o) : Hidden o := by
  unfold ofExpression? at h
  dsimp only at h
  split at h
  · rename_i hkind
    split at h
    · rename_i subject b _ _ hsubject
      obtain ⟨c, hc, hsubject⟩ := Option.bind_eq_some_iff.mp hsubject
      split at h
      · -- the alternative is nothing
        rename_i hbranches
        obtain ⟨halternative, hconsequence⟩ := Bool.and_eq_true_iff.mp hbranches
        obtain ⟨e₂, he₂, hnothing⟩ := (Option.any_eq_true _ _).mp halternative
        obtain ⟨e₁, he₁, -⟩ := (Option.any_eq_true _ _).mp hconsequence
        obtain rfl := Option.some.inj h
        rw [form_of_ternary hkind hc he₁ he₂] at hgives
        cases hgives with
        | consequence _ _ _ _ htest _ =>
          have hvalue := eq_of_test hsubject htest
          cases b <;> simp at hvalue
        | alternative _ _ _ _ _ hgives => exact .inl (eq_nothing_of_isNothing hnothing hgives)
      · split at h
        · -- the consequence is nothing
          rename_i hbranches
          obtain ⟨hconsequence, halternative⟩ := Bool.and_eq_true_iff.mp hbranches
          obtain ⟨e₁, he₁, hnothing⟩ := (Option.any_eq_true _ _).mp hconsequence
          obtain ⟨e₂, he₂, -⟩ := (Option.any_eq_true _ _).mp halternative
          obtain rfl := Option.some.inj h
          rw [form_of_ternary hkind hc he₁ he₂] at hgives
          cases hgives with
          | consequence _ _ _ _ _ hgives => exact .inl (eq_nothing_of_isNothing hnothing hgives)
          | alternative _ _ _ _ htest _ =>
            have hvalue := eq_of_test hsubject htest
            cases b <;> simp at hvalue
        · cases h
    · cases h
  · rename_i hkind
    split at h
    · rename_i hconjunction
      obtain ⟨hop, hright⟩ := Bool.and_eq_true_iff.mp hconjunction
      obtain ⟨r, hr, -⟩ := (Option.any_eq_true _ _).mp hright
      obtain ⟨⟨subject, b⟩, hleft, hgate⟩ := Option.map_eq_some_iff.mp h
      obtain ⟨l, hl, hsubject⟩ := Option.bind_eq_some_iff.mp hleft
      obtain rfl := hgate
      rw [form_of_conjunction hkind (beq_iff_eq.mp hop) hl hr] at hgives
      cases hgives with
      | conjunct _ _ _ _ _ _ _ hgives =>
        exact .inr (gives_gate (by rw [Bool.not_not]; exact hsubject) hgives)
      | afterConjunct _ _ _ _ _ htest _ =>
        have hvalue := eq_of_test hsubject htest
        cases b <;> simp at hvalue
      | disjunct _ _ _ _ hother => exact absurd hother (by decide)
      | afterDisjunct _ _ _ _ hother => exact absurd hother (by decide)
      | present _ _ _ _ hother => exact absurd hother (by decide)
      | absent _ _ _ _ _ hother => exact absurd hother (by decide)
    · cases h
  · cases h

/-! ## The statement with the gate -/

theorem view_of_block {s : Node} (h : s.kind = .statementBlock) : view s = .block s.parts := by
  rw [view, h]

theorem view_of_return {s : Node} (h : s.kind = .returnStatement) :
    view s = .leave s.firstPart? := by
  rw [view, h]

theorem view_of_if {s c a : Node} (h : s.kind = .ifStatement) (hc : s.child? .condition = some c)
    (ha : s.child? .consequence = some a) :
    view s = .choice c a (s.child? .alternative) := by
  rw [view, h]
  simp only [hc, ha]

/-- A statement that returns nothing at once does so on every path. -/
theorem returns_nothing_of_returnsNothing {s : Node} {k : Course} (h : returnsNothing s = true)
    (hruns : Runs x prop truth (.statement s) k) : k = .returns .nothing := by
  induction s using induct_below generalizing k with
  | _ s ih =>
    rw [returnsNothing_eq] at h
    cases hruns with
    | statement _ _ hruns =>
      split at h
      · rename_i hkind
        rw [view_of_block (beq_iff_eq.mp hkind)] at hruns
        cases hfirst : s.firstPart? with
        | none =>
          rw [hfirst] at h
          cases h
        | some c =>
          rw [hfirst] at h
          have hc {k : Course} (hruns : Runs x prop truth (.statement c) k) :
              k = .returns .nothing :=
            ih c (mem_below_of_mem_parts (List.mem_of_head? hfirst)) h hruns
          obtain ⟨rest, hparts⟩ : ∃ rest, s.parts = c :: rest := List.head?_eq_some_iff.mp hfirst
          rw [hparts] at hruns
          cases hruns with
          | block _ _ hruns =>
            cases hruns with
            | next _ _ _ hon _ => cases hc hon
            | stop _ _ _ _ hstop => exact hc hstop
      · split at h
        · rename_i hkind
          rw [view_of_return (beq_iff_eq.mp hkind)] at hruns
          cases hvalue : s.firstPart? with
          | none =>
            rw [hvalue] at hruns
            cases hruns
            rfl
          | some e =>
            rw [hvalue] at h hruns
            cases hruns with
            | leaveWith _ _ hgives => rw [eq_nothing_of_isNothing h hgives]
            | badValue _ hquiet =>
              rw [form_of_isNothing h] at hquiet
              cases hquiet
        · cases h

/-- Whether the search for a gate ends at a statement: it returns, or returns nothing in a case of a
prop. -/
def decides (x : Props.Extracted) (s : Node) : Bool :=
  s.kind == .returnStatement || (ofStatements? x [s]).isSome

theorem ofStatements?_cons (s : Node) (rest : List Node) :
    ofStatements? x (s :: rest) =
      if decides x s = true then ofStatements? x [s] else ofStatements? x rest := by
  unfold decides
  rw [ofStatements?, ofStatements?, ofStatements?]
  by_cases hif : s.kind = .ifStatement
  · rw [hif]
    simp only [beq_self_eq_true, if_true]
    split
    · split <;> rfl
    · rfl
  · by_cases hreturn : s.kind = .returnStatement
    · rw [hreturn]
      rfl
    · rw [beq_eq_false_iff_ne.mpr hif, beq_eq_false_iff_ne.mpr hreturn]
      rfl

/-- A gate is that of the first statement at which the search ends. -/
theorem ofStatements?_eq_some {l : List Node} {gate : Gate} (h : ofStatements? x l = some gate) :
    ∃ s rest, l = l.takeWhile (!decides x ·) ++ s :: rest ∧ ofStatements? x [s] = some gate := by
  induction l with
  | nil => cases h
  | cons s rest ih =>
    rw [ofStatements?_cons] at h
    split at h
    · rename_i hdecides
      exact ⟨s, rest, by rw [List.takeWhile_cons, hdecides]; rfl, h⟩
    · rename_i hdecides
      obtain ⟨d, more, hl, hgate⟩ := ih h
      rw [Bool.not_eq_true] at hdecides
      refine ⟨d, more, ?_, hgate⟩
      rw [List.takeWhile_cons, hdecides]
      exact congrArg (s :: ·) hl

/-- **The statement with the gate shows nothing.**  Where the prop has the other truth value, it
returns what is hidden, or throws. -/
theorem returns_hidden_of_decides {s : Node} {gate : Gate} {k : Course}
    (h : ofStatements? x [s] = some gate)
    (hruns : Runs x gate.prop (!gate.rendersWhen) (.statement s) k) :
    k = .throws ∨ ∃ o, k = .returns o ∧ Hidden o := by
  rw [ofStatements?] at h
  cases hruns with
  | statement _ _ hruns =>
    split at h
    · rename_i hkind
      split at h
      · rename_i subject b a hsubject ha
        obtain ⟨c, hc, hsubject⟩ := Option.bind_eq_some_iff.mp hsubject
        split at h
        · rename_i hreturns
          obtain rfl := Option.some.inj h
          rw [view_of_if (beq_iff_eq.mp hkind) hc ha] at hruns
          have hholds {value : Bool} (htest : Test x subject (!!b) c value) : value = true :=
            (eq_of_test hsubject htest).trans (by cases b <;> rfl)
          generalize s.child? .alternative = alternative at hruns
          cases hruns with
          | consequence _ _ _ _ _ hruns =>
            exact .inr ⟨.nothing, returns_nothing_of_returnsNothing hreturns hruns, .inl rfl⟩
          | alternative _ _ _ _ htest _ => cases hholds htest
          | skip _ _ htest => cases hholds htest
          | badCondition => exact .inl rfl
        · cases h
      · cases h
    · split at h
      · rename_i hkind
        obtain ⟨e, he, hgate⟩ := Option.bind_eq_some_iff.mp h
        rw [view_of_return (beq_iff_eq.mp hkind), he] at hruns
        cases hruns with
        | leaveWith _ o hgives => exact .inr ⟨o, rfl, hidden_of_ofExpression? hgate hgives⟩
        | badValue => exact .inl rfl
      · cases h

/-! ## The whole component -/

/-- The statements of a function in front of the one at which the search for a gate ends. -/
def front (x : Props.Extracted) (fn : Node) : List Node :=
  match fn.child? .body with
  | none => []
  | some body =>
    if body.kind == .statementBlock then body.parts.takeWhile (!decides x ·) else []

/-- The gate of a component is that of its body: of a statement behind the front, or of the
expression that the body is. -/
theorem ofComponent?_eq_some {site : Site} {gate : Gate} (h : ofComponent? x site = some gate) :
    ∃ body, site.callable.child? .body = some body ∧
      ((body.kind = .statementBlock ∧ ∃ s rest, body.parts = front x site.callable ++ s :: rest ∧
          ofStatements? x [s] = some gate) ∨
        (body.kind ≠ .statementBlock ∧ ofExpression? x body = some gate)) := by
  obtain ⟨hfound, -⟩ := Option.filter_eq_some_iff.mp h
  obtain ⟨body, hbody, hgate⟩ := Option.bind_eq_some_iff.mp hfound
  refine ⟨body, hbody, ?_⟩
  rw [front, hbody]
  dsimp only at hgate ⊢
  split at hgate
  · rename_i hkind
    rw [if_pos hkind]
    exact .inl ⟨beq_iff_eq.mp hkind, ofStatements?_eq_some hgate⟩
  · rename_i hkind
    exact .inr ⟨fun hblock => hkind (beq_iff_eq.mpr hblock), hgate⟩

/-- If what the statements in front return is hidden, so is the component. -/
theorem hidden_of_front {site : Site} {gate : Gate} (h : ofComponent? x site = some gate)
    (hfront : ∀ o, Runs x gate.prop (!gate.rendersWhen) (.sequence (front x site.callable))
      (.returns o) → Hidden o)
    {o : Rendered} (hshows : Shows x gate.prop (!gate.rendersWhen) site.callable o) : Hidden o := by
  have hreturn : Course.returns o ≠ .on := nofun
  obtain ⟨body, hbody, hgate⟩ := ofComponent?_eq_some h
  obtain ⟨body', hbody', hshows⟩ := hshows
  obtain rfl : body' = body := Option.some.inj (hbody'.symm.trans hbody)
  rcases hgate with ⟨hkind, s, rest, hparts, hgate⟩ | ⟨hkind, hgate⟩
  · rw [if_pos hkind, hparts] at hshows
    rcases hshows with hshows | ⟨rfl, -⟩
    · rcases (runs_append_iff hreturn).mp hshows with hruns | ⟨-, hruns⟩
      · exact hfront o hruns
      · cases hruns with
        | next _ _ _ hs _ =>
          rcases returns_hidden_of_decides hgate hs with hthrows | ⟨o', hreturns, -⟩
          · cases hthrows
          · cases hreturns
        | stop _ _ _ _ hs =>
          rcases returns_hidden_of_decides hgate hs with hthrows | ⟨o', hreturns, hhidden⟩
          · cases hthrows
          · cases hreturns
            exact hhidden
    · exact .inl rfl
  · rw [if_neg hkind] at hshows
    exact hidden_of_ofExpression? hgate hshows

/-- **When a gate hides the component.**  Let a component have a gate, and let its prop have the
other truth value.  On no path through the body is anything shown, exactly if nothing is shown by
the statements in front of the one with the gate. -/
theorem gate_hides_iff {site : Site} {gate : Gate} (h : ofComponent? x site = some gate) :
    (∀ o, Shows x gate.prop (!gate.rendersWhen) site.callable o → Hidden o) ↔
      ∀ o, Runs x gate.prop (!gate.rendersWhen) (.sequence (front x site.callable)) (.returns o) →
        Hidden o := by
  refine ⟨fun hshows o hruns => hshows o ?_, fun hfront o => hidden_of_front h hfront⟩
  have hreturn : Course.returns o ≠ .on := nofun
  obtain ⟨body, hbody, hgate⟩ := ofComponent?_eq_some h
  refine ⟨body, hbody, ?_⟩
  rcases hgate with ⟨hkind, s, rest, hparts, -⟩ | ⟨hkind, -⟩
  · rw [if_pos hkind, hparts]
    exact .inl ((runs_append_iff hreturn).mpr (.inl hruns))
  · rw [front, hbody] at hruns
    dsimp only at hruns
    rw [if_neg (by rw [beq_iff_eq]; exact hkind)] at hruns
    cases hruns

/-- A gate hides the component if no statement in front of it has a `return`. -/
theorem hidden_of_no_return {site : Site} {gate : Gate} (h : ofComponent? x site = some gate)
    (hfront : ∀ s ∈ front x site.callable, ¬HasReturn s) {o : Rendered}
    (hshows : Shows x gate.prop (!gate.rendersWhen) site.callable o) : Hidden o := by
  refine hidden_of_front h (fun o hruns => ?_) hshows
  obtain ⟨s, hs, hreturn⟩ := hasReturn_of_runs hruns o rfl
  exact absurd hreturn (hfront s hs)

/-- A component that calls something in front of its gate. -/
def gated : String := "export const A = (\x7b open \x7d) => \x7b f(); return open && <p/>; \x7d;\n"

/-- The call returns nothing, so the gate hides the component. -/
theorem gated_hidden :
    ∃ s site, Source.parse gated "A.jsx" = .ok s ∧ Site.locate s.root "A.jsx" = .ok site ∧
      ofComponent? (Props.extract s.root site) site = some ⟨"open", true⟩ ∧
      (front (Props.extract s.root site) site.callable).length = 1 ∧
      ∀ o, Shows (Props.extract s.root site) "open" false site.callable o → Hidden o := by
  obtain ⟨s, site, hs, hsite, hgate, hlength, hnone⟩ := Site.exists_site gated "A.jsx"
    (P := fun s site => ofComponent? (Props.extract s.root site) site = some ⟨"open", true⟩ ∧
      (front (Props.extract s.root site) site.callable).length = 1 ∧
      ∀ s' ∈ front (Props.extract s.root site) site.callable,
        ∀ n ∈ s'.ownWalk, n.kind ≠ .returnStatement)
    (by decide +kernel)
  refine ⟨s, site, hs, hsite, hgate, hlength, (gate_hides_iff hgate).mpr fun o hruns => ?_⟩
  obtain ⟨s', hs', n, hn, hreturn⟩ := hasReturn_of_runs hruns o rfl
  exact absurd hreturn (hnone s' hs' n hn)

/-- A component that returns markup in front of its gate. -/
def outOfGate : String :=
  "export const A = (\x7b a, open \x7d) => \x7b if (a) return <i/>; return open && <p/>; \x7d;\n"

/-- The gate does not hide what is returned in front of it. -/
theorem markup_in_front :
    ∃ s site, Source.parse outOfGate "A.jsx" = .ok s ∧ Site.locate s.root "A.jsx" = .ok site ∧
      ofComponent? (Props.extract s.root site) site = some ⟨"open", true⟩ ∧
      Shows (Props.extract s.root site) "open" false site.callable .markup ∧ ¬Hidden .markup := by
  obtain ⟨s, site, hs, hsite, hgate, body, hbody, hblock, first, hfirst, hkind, c, hc, htest, a, ha,
      hreturn, e, he, hreads, hmarkup⟩ := Site.exists_site outOfGate "A.jsx"
    (P := fun s site => ofComponent? (Props.extract s.root site) site = some ⟨"open", true⟩ ∧
      ∃ body ∈ site.callable.child? .body, body.kind = .statementBlock ∧
      ∃ first ∈ body.parts.head?, first.kind = .ifStatement ∧
      ∃ c ∈ first.child? .condition, Test (Props.extract s.root site) "open" false c true ∧
      ∃ a ∈ first.child? .consequence, a.kind = .returnStatement ∧
      ∃ e ∈ a.firstPart?, readsProp (Props.extract s.root site) "open" e.content = false ∧
        e.content.kind = .jsxSelfClosingElement)
    (by decide +kernel)
  have hform : form (Props.extract s.root site) "open" e = .markup := by
    rw [form, hreads, hmarkup]
    rfl
  have hruns : Runs (Props.extract s.root site) "open" false (.statement a) (.returns .markup) := by
    refine .statement a _ ?_
    rw [view_of_return hreturn, Option.mem_def.mp he]
    exact .leaveWith e .markup (by rw [hform]; exact .markup)
  have hif : Runs (Props.extract s.root site) "open" false (.statement first)
      (.returns .markup) := by
    refine .statement first _ ?_
    rw [view_of_if hkind hc ha]
    exact .consequence c a _ _ htest hruns
  obtain ⟨rest, hparts⟩ := List.head?_eq_some_iff.mp hfirst
  refine ⟨s, site, hs, hsite, hgate, ⟨body, hbody, ?_⟩, by decide⟩
  rw [if_pos hblock, hparts]
  exact .inl (.stop first rest _ nofun hif)

end Visibility
end Transplant
