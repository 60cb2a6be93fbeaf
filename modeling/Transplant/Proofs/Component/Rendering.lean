import Transplant.Component.Visibility
import Transplant.Proofs.Comments.Tree
import Transplant.Proofs.Grammar.Layout

/-!
# What a component returns

The paths through the body of a component, while the truth value of one prop is fixed.  A condition
that is the prop, or the prop behind an exclamation mark, has the value that follows; every other
condition can hold or fail, a loop can go round as often as it likes, a choice by value can begin at
any case, and whatever computes something can throw.  The name of the prop stands for the prop
throughout: it is neither assigned to nor shadowed.

Nothing here refers to how gates are recognized.  A node is first seen as an expression (`Form`) or
as a statement (`View`) of some sort, with the nodes it is made of; then `Gives` says what
expressions can give, and `Runs` how statements can end.

* `Node.content`: an expression without parentheses and type wrappers
* `Rendering.form`, `Rendering.Test`, `Rendering.Gives`: expressions
* `Rendering.view`, `Rendering.Runs`: statements
* `Rendering.Shows`: what a function can return
* `Rendering.hasReturn_of_runs`: what returns has a `return` in it
-/

namespace Transplant

namespace Node

mutual

/-- The expression inside parentheses and type wrappers, comments aside. -/
def content : Node → Node
  | ⟨kind, role, start, stop, line, text, children⟩ =>
    if kind.isWrapper then
      (contentOfFirst? children).getD ⟨kind, role, start, stop, line, text, children⟩
    else ⟨kind, role, start, stop, line, text, children⟩

/-- The content of the first node that is neither a token nor a comment. -/
def contentOfFirst? : List Node → Option Node
  | [] => none
  | c :: rest =>
    if c.kind == .token || c.kind == .comment then contentOfFirst? rest else some (content c)

end

theorem content_eq (n : Node) :
    n.content = if n.kind.isWrapper then (n.firstPart?.map content).getD n else n := by
  have hfirst := eq_firstPart (F := contentOfFirst?) (G := fun c => some c.content)
    (by rw [contentOfFirst?]) (fun c rest => by rw [contentOfFirst?]) n
  cases n
  rw [content, hfirst]
  cases firstPart? _ <;> rfl

/-- Where unwrapping does not stop at a comment, it finds the content. -/
theorem content_eq_unwrap {n : Node} (h : n.unwrap.kind ≠ .comment) : n.content = n.unwrap := by
  induction n using induct_below with
  | _ n ih =>
    rw [unwrap_eq] at h ⊢
    rw [content_eq]
    split
    · rename_i hwrapper
      rw [if_pos hwrapper] at h
      cases hnamed : n.namedChildren with
      | nil => rw [firstPart?, parts, hnamed]; rfl
      | cons c rest =>
        rw [hnamed] at h
        have hc : c.kind ≠ .comment := by
          intro hcomment
          apply h
          have hsame : c.unwrap = c := by rw [unwrap_eq, hcomment]; rfl
          rw [List.head?_cons, Option.map_some, Option.getD_some, hsame, hcomment]
        have hfirst : n.firstPart? = some c := by
          rw [firstPart?, parts, hnamed, List.filter_cons, if_pos (bne_iff_ne.mpr hc)]
          rfl
        rw [hfirst]
        exact ih c (mem_below_of_mem_parts (List.mem_of_head? hfirst)) h
    · rfl

theorem mem_ownWalk_of_mem_children {s c n : Node} (hs : s.kind.isFunction = false)
    (hc : c ∈ s.children) (hn : n ∈ c.ownWalk) : n ∈ s.ownWalk := by
  rw [ownWalk_eq, hs, ownWalkAll_eq]
  exact List.mem_cons_of_mem _ (List.mem_flatMap.mpr ⟨c, hc, hn⟩)

end Node

namespace Rendering

open Node

/-- What a component can return. -/
inductive Rendered where
  /-- `null`, `undefined`, or no value at all. -/
  | nothing
  /-- The value of a condition on the prop that fails. -/
  | gate
  | markup
  | other
deriving DecidableEq

/-- Nothing is shown: there is no value, or only that of a condition that fails. -/
def Hidden (o : Rendered) : Prop := o = .nothing ∨ o = .gate

instance (o : Rendered) : Decidable (Hidden o) := inferInstanceAs (Decidable (_ ∨ _))

/-! ## Expressions -/

/-- What an expression is, as far as it decides about what is shown. -/
inductive Form where
  /-- The prop. -/
  | prop
  /-- The prop behind an exclamation mark. -/
  | negation
  | nothing
  | markup
  | literal
  | choice (condition consequence alternative : Node)
  | logical (operator : String) (left right : Node)
  | unknown

/-- The value of some expressions is there without computing anything. -/
def Form.isQuiet : Form → Bool
  | .prop | .negation | .nothing | .literal => true
  | _ => false

/-- Whether an expression without wrappers is the prop: by its own name, or as a member of the
parameter. -/
def readsProp (x : Props.Extracted) (prop : String) (n : Node) : Bool :=
  n.kind == .identifier && n.text == prop && x.props.any (·.name == prop) ||
    n.kind == .memberExpression && x.param.any fun param =>
      (n.child? .object).any (·.text == param) && (n.child? .property).any (·.text == prop)

/-- The form of an expression. -/
def form (x : Props.Extracted) (prop : String) (e : Node) : Form :=
  let n := e.content
  if readsProp x prop n then .prop
  else match n.kind with
  | .nullLiteral | .undefinedLiteral => .nothing
  | .jsxElement | .jsxSelfClosingElement => .markup
  | .string | .number | .trueLiteral | .falseLiteral | .templateString | .regex => .literal
  | .unaryExpression =>
    if n.operatorText? == some "!" && (n.child? .argument).any (readsProp x prop ·.content) then
      .negation
    else .unknown
  | .ternaryExpression =>
    match n.child? .condition, n.child? .consequence, n.child? .alternative with
    | some c, some a, some b => .choice c a b
    | _, _, _ => .unknown
  | .binaryExpression =>
    match n.operatorText?, n.child? .left, n.child? .right with
    | some op, some l, some r =>
      if op == "&&" || op == "||" || op == "??" then .logical op l r else .unknown
    | _, _, _ => .unknown
  | _ => .unknown

section Expressions

variable (x : Props.Extracted) (prop : String) (truth : Bool)

/-- A condition can have the given value, where the prop has the value `truth`. -/
def Test (c : Node) (b : Bool) : Prop :=
  match form x prop c with
  | .prop => b = truth
  | .negation => b = !truth
  | _ => True

instance (c : Node) (b : Bool) : Decidable (Test x prop truth c b) := by
  unfold Test
  cases form x prop c <;> infer_instance

/-- The value of a condition on the prop: one that fails is a gate. -/
def Rendered.ofTruth (b : Bool) : Rendered := if b then .other else .gate

/-- What an expression of the given form can give. -/
inductive Gives : Form → Rendered → Prop
  | prop : Gives .prop (.ofTruth truth)
  | negation : Gives .negation (.ofTruth !truth)
  | nothing : Gives .nothing .nothing
  | markup : Gives .markup .markup
  | literal : Gives .literal .other
  | consequence (c a b : Node) (o : Rendered) (hc : Test x prop truth c true)
      (h : Gives (form x prop a) o) : Gives (.choice c a b) o
  | alternative (c a b : Node) (o : Rendered) (hc : Test x prop truth c false)
      (h : Gives (form x prop b) o) : Gives (.choice c a b) o
  /-- What fails on the left of `&&`. -/
  | conjunct (op : String) (l r : Node) (o : Rendered) (hop : op = "&&")
      (hl : Test x prop truth l false) (ho : o ≠ .markup) (h : Gives (form x prop l) o) :
      Gives (.logical op l r) o
  | afterConjunct (op : String) (l r : Node) (o : Rendered) (hop : op = "&&")
      (hl : Test x prop truth l true) (h : Gives (form x prop r) o) : Gives (.logical op l r) o
  /-- What holds on the left of `||`. -/
  | disjunct (op : String) (l r : Node) (o : Rendered) (hop : op = "||")
      (hl : Test x prop truth l true) (ho : ¬Hidden o) (h : Gives (form x prop l) o) :
      Gives (.logical op l r) o
  | afterDisjunct (op : String) (l r : Node) (o : Rendered) (hop : op = "||")
      (hl : Test x prop truth l false) (h : Gives (form x prop r) o) : Gives (.logical op l r) o
  /-- What is there on the left of `??`. -/
  | present (op : String) (l r : Node) (o : Rendered) (hop : op = "??") (ho : o ≠ .nothing)
      (h : Gives (form x prop l) o) : Gives (.logical op l r) o
  | absent (op : String) (l r : Node) (o o' : Rendered) (hop : op = "??") (ho : Hidden o')
      (hl : Gives (form x prop l) o') (h : Gives (form x prop r) o) : Gives (.logical op l r) o
  | unknown (o : Rendered) : Gives .unknown o

end Expressions

/-! ## Statements -/

/-- What a statement is. -/
inductive View where
  | block (statements : List Node)
  | choice (condition consequence : Node) (alternative : Option Node)
  /-- A loop; `first` says whether the body is run once before the condition is tested. -/
  | loop (first : Bool) (condition : Option Node) (body : Node)
  | cases (sections : List Node)
  | guarded (body : Node) (handler finalizer : Option Node)
  | labeled (label : String) (body : Node)
  | leave (value : Option Node)
  | throw
  | break (label : Option String)
  | continue (label : Option String)
  | plain

/-- The statements behind the label of a case. -/
def sectionBody (c : Node) : List Node := c.parts.filter (·.role != some .value)

/-- The label that a statement names. -/
def labelText? (s : Node) : Option String := (s.child? .label).map (·.text)

/-- The view of a statement. -/
def view (s : Node) : View :=
  match s.kind with
  | .statementBlock | .elseClause => .block s.parts
  | .catchClause | .finallyClause | .withStatement => .block (s.child? .body).toList
  | .ifStatement =>
    match s.child? .condition, s.child? .consequence with
    | some c, some a => .choice c a (s.child? .alternative)
    | _, _ => .plain
  | .whileStatement | .forStatement | .forInStatement =>
    match s.child? .body with
    | some b => .loop false (s.child? .condition) b
    | none => .plain
  | .doStatement =>
    match s.child? .body with
    | some b => .loop true (s.child? .condition) b
    | none => .plain
  | .switchStatement =>
    match s.child? .body with
    | some b =>
      if b.kind == .switchBody then
        .cases (b.parts.filter fun c => c.kind == .switchCase || c.kind == .switchDefault)
      else .plain
    | none => .plain
  | .tryStatement =>
    match s.child? .body with
    | some b => .guarded b (s.child? .handler) (s.child? .finalizer)
    | none => .plain
  | .labeledStatement =>
    match labelText? s, s.child? .body with
    | some label, some b => .labeled label b
    | _, _ => .plain
  | .returnStatement => .leave s.firstPart?
  | .throwStatement => .throw
  | .breakStatement => .break (labelText? s)
  | .continueStatement => .continue (labelText? s)
  | _ => .plain

/-- How a statement can end. -/
inductive Course where
  /-- The next statement follows. -/
  | on
  | breaks (label : Option String)
  | continues (label : Option String)
  | returns (o : Rendered)
  | throws
deriving DecidableEq

namespace Course

/-- What the end of its body means for a loop, unless the condition is tested next. -/
def outOfLoop? : Course → Option Course
  | .on | .continues none => none
  | .breaks none => some .on
  | k => some k

/-- What the end of a case means for the whole choice. -/
def outOfCases : Course → Course
  | .breaks none => .on
  | k => k

/-- What the end of its body means for a statement with a label. -/
def pastLabel (label : String) : Course → Course
  | .breaks (some l) => if l = label then .on else .breaks (some l)
  | .continues (some l) => if l = label then .on else .continues (some l)
  | k => k

end Course

/-- What is run: a statement, a statement as it is seen, statements in a row, or a block with its
handler. -/
inductive Code where
  | statement (s : Node)
  | seen (v : View)
  | sequence (l : List Node)
  | attempt (body : Node) (handler : Option Node)

section Statements

variable (x : Props.Extracted) (prop : String) (truth : Bool)

/-- What is run can end in this way. -/
inductive Runs : Code → Course → Prop
  | statement (s : Node) (k : Course) (h : Runs (.seen (view s)) k) : Runs (.statement s) k
  | empty : Runs (.sequence []) .on
  | next (s : Node) (rest : List Node) (k : Course) (hs : Runs (.statement s) .on)
      (h : Runs (.sequence rest) k) : Runs (.sequence (s :: rest)) k
  | stop (s : Node) (rest : List Node) (k : Course) (hk : k ≠ .on) (h : Runs (.statement s) k) :
      Runs (.sequence (s :: rest)) k
  | block (l : List Node) (k : Course) (h : Runs (.sequence l) k) : Runs (.seen (.block l)) k
  | consequence (c a : Node) (b : Option Node) (k : Course) (hc : Test x prop truth c true)
      (h : Runs (.statement a) k) : Runs (.seen (.choice c a b)) k
  | alternative (c a b : Node) (k : Course) (hc : Test x prop truth c false)
      (h : Runs (.statement b) k) : Runs (.seen (.choice c a (some b))) k
  | skip (c a : Node) (hc : Test x prop truth c false) : Runs (.seen (.choice c a none)) .on
  | badCondition (c a : Node) (b : Option Node) (hc : (form x prop c).isQuiet = false) :
      Runs (.seen (.choice c a b)) .throws
  /-- A loop whose condition fails before the body is run. -/
  | pass (c : Option Node) (b : Node) (hc : ∀ n, c = some n → Test x prop truth n false) :
      Runs (.seen (.loop false c b)) .on
  /-- A loop whose condition fails after the body has been run first. -/
  | done (c : Option Node) (b : Node) (k : Course) (hk : k.outOfLoop? = none)
      (hc : ∀ n, c = some n → Test x prop truth n false) (h : Runs (.statement b) k) :
      Runs (.seen (.loop true c b)) .on
  /-- A loop that is left from its body. -/
  | left (first : Bool) (c : Option Node) (b : Node) (k k' : Course) (hk : k.outOfLoop? = some k')
      (hc : first = true ∨ ∀ n, c = some n → Test x prop truth n true)
      (h : Runs (.statement b) k) : Runs (.seen (.loop first c b)) k'
  | badLoop (first : Bool) (c : Option Node) (b : Node) : Runs (.seen (.loop first c b)) .throws
  /-- A choice by value begins at any case, or at none, and goes through the cases behind it. -/
  | cases (before after : List Node) (k : Course)
      (h : Runs (.sequence (after.flatMap sectionBody)) k) :
      Runs (.seen (.cases (before ++ after))) k.outOfCases
  | badCase (sections : List Node) : Runs (.seen (.cases sections)) .throws
  | unguarded (b : Node) (handler : Option Node) (k : Course) (h : Runs (.attempt b handler) k) :
      Runs (.seen (.guarded b handler none)) k
  | finished (b f : Node) (handler : Option Node) (k : Course) (h : Runs (.attempt b handler) k)
      (hf : Runs (.statement f) .on) : Runs (.seen (.guarded b handler (some f))) k
  /-- How the finalizer ends counts for more than how the block has ended. -/
  | overridden (b f : Node) (handler : Option Node) (k k' : Course)
      (h : Runs (.attempt b handler) k) (hk : k' ≠ .on) (hf : Runs (.statement f) k') :
      Runs (.seen (.guarded b handler (some f))) k'
  | uncaught (b : Node) (handler : Option Node) (k : Course) (hk : k ≠ .throws ∨ handler = none)
      (h : Runs (.statement b) k) : Runs (.attempt b handler) k
  | caught (b n : Node) (k : Course) (hb : Runs (.statement b) .throws)
      (h : Runs (.statement n) k) : Runs (.attempt b (some n)) k
  | labeled (label : String) (b : Node) (k : Course) (h : Runs (.statement b) k) :
      Runs (.seen (.labeled label b)) (k.pastLabel label)
  | leave : Runs (.seen (.leave none)) (.returns .nothing)
  | leaveWith (e : Node) (o : Rendered) (h : Gives x prop truth (form x prop e) o) :
      Runs (.seen (.leave (some e))) (.returns o)
  | badValue (e : Node) (he : (form x prop e).isQuiet = false) :
      Runs (.seen (.leave (some e))) .throws
  | throw : Runs (.seen .throw) .throws
  | break (label : Option String) : Runs (.seen (.break label)) (.breaks label)
  | continue (label : Option String) : Runs (.seen (.continue label)) (.continues label)
  | plain : Runs (.seen .plain) .on
  | badPlain : Runs (.seen .plain) .throws

/-- What a function can return: the value of its body, or what the body returns; nothing if it
comes to its end. -/
def Shows (fn : Node) (o : Rendered) : Prop :=
  ∃ body, fn.child? .body = some body ∧
    if body.kind = .statementBlock then
      Runs x prop truth (.sequence body.parts) (.returns o) ∨
        (o = .nothing ∧ Runs x prop truth (.sequence body.parts) .on)
    else Gives x prop truth (form x prop body) o

variable {x prop truth}

/-! ## Statements in a row -/

theorem runs_append_iff {front rest : List Node} {k : Course} (hk : k ≠ .on) :
    Runs x prop truth (.sequence (front ++ rest)) k ↔
      Runs x prop truth (.sequence front) k ∨
        (Runs x prop truth (.sequence front) .on ∧ Runs x prop truth (.sequence rest) k) := by
  induction front with
  | nil =>
    refine ⟨fun h => .inr ⟨.empty, h⟩, fun h => h.elim (fun h => ?_) And.right⟩
    cases h
    exact absurd rfl hk
  | cons s front ih =>
    rw [List.cons_append]
    constructor
    · intro h
      cases h with
      | next _ _ _ hs h =>
        exact (ih.mp h).imp (.next _ _ _ hs) fun ⟨hfront, hrest⟩ => ⟨.next _ _ _ hs hfront, hrest⟩
      | stop _ _ _ hk h => exact .inl (.stop _ _ _ hk h)
    · rintro (h | ⟨h, hrest⟩)
      · cases h with
        | next _ _ _ hs h => exact .next _ _ _ hs (ih.mpr (.inl h))
        | stop _ _ _ hk h => exact .stop _ _ _ hk h
      · cases h with
        | next _ _ _ hs h => exact .next _ _ _ hs (ih.mpr (.inr ⟨h, hrest⟩))
        | stop _ _ _ hon _ => exact absurd rfl hon

/-! ## Statements without a return -/

/-- The statements that a statement is made of. -/
def View.statements : View → List Node
  | .block l => l
  | .choice _ a b => a :: b.toList
  | .loop _ _ b => [b]
  | .cases sections => sections.flatMap sectionBody
  | .guarded b handler finalizer => b :: (handler.toList ++ finalizer.toList)
  | .labeled _ b => [b]
  | _ => []

/-- What a statement is made of stands in it outside of all functions. -/
theorem mem_ownWalk_of_mem_view {s c n : Node} (hc : c ∈ (view s).statements)
    (hn : n ∈ c.ownWalk) : n ∈ s.ownWalk := by
  have hchild {r : Role} (hs : s.kind.isFunction = false) (h : s.child? r = some c) :
      n ∈ s.ownWalk := mem_ownWalk_of_mem_children hs (mem_children_of_child? h) hn
  unfold view at hc
  split at hc
  iterate 2
    rename_i hkind
    exact mem_ownWalk_of_mem_children (by rw [hkind]; rfl) (mem_children_of_mem_parts hc) hn
  iterate 3
    rename_i hkind
    exact hchild (by rw [hkind]; rfl) (Option.mem_toList.mp hc)
  · -- a condition
    rename_i hkind
    have hs : s.kind.isFunction = false := by rw [hkind]; rfl
    split at hc
    · rename_i condition consequence _ hconsequence
      rcases List.mem_cons.mp hc with rfl | hc
      · exact hchild hs hconsequence
      · exact hchild hs (Option.mem_toList.mp hc)
    · cases hc
  iterate 4
    rename_i hkind
    split at hc
    · rename_i b hbody
      obtain rfl := List.mem_singleton.mp hc
      exact hchild (by rw [hkind]; rfl) hbody
    · cases hc
  · -- a choice by value, whose cases stand in its body
    rename_i hkind
    split at hc
    · rename_i b hbody
      split at hc
      · rename_i hswitch
        obtain ⟨section', hsection, hc⟩ := List.mem_flatMap.mp hc
        obtain ⟨hsection, hcase⟩ := List.mem_filter.mp hsection
        have hcasekind : section'.kind.isFunction = false := by
          rcases (Bool.or_eq_true _ _).mp hcase with h | h <;> rw [beq_iff_eq.mp h] <;> rfl
        have hinner := mem_ownWalk_of_mem_children hcasekind
          (mem_children_of_mem_parts (List.mem_filter.mp hc).1) hn
        have hbodykind : b.kind.isFunction = false := by rw [beq_iff_eq.mp hswitch]; rfl
        have hmiddle := mem_ownWalk_of_mem_children hbodykind
          (mem_children_of_mem_parts hsection) hinner
        exact mem_ownWalk_of_mem_children (by rw [hkind]; rfl) (mem_children_of_child? hbody)
          hmiddle
      · cases hc
    · cases hc
  · -- a guarded block
    rename_i hkind
    have hs : s.kind.isFunction = false := by rw [hkind]; rfl
    split at hc
    · rename_i b hbody
      rcases List.mem_cons.mp hc with rfl | hc
      · exact hchild hs hbody
      · rcases List.mem_append.mp hc with hc | hc
        · exact hchild hs (Option.mem_toList.mp hc)
        · exact hchild hs (Option.mem_toList.mp hc)
    · cases hc
  · rename_i hkind
    split at hc
    · rename_i label b _ hbody
      obtain rfl := List.mem_singleton.mp hc
      exact hchild (by rw [hkind]; rfl) hbody
    · cases hc
  all_goals cases hc

/-- A `return` stands in a statement, outside of the functions in it. -/
def HasReturn (s : Node) : Prop := ∃ n ∈ s.ownWalk, n.kind = .returnStatement

/-- A `return` stands in what is run. -/
def Code.HasReturn : Code → Prop
  | .statement s => Rendering.HasReturn s
  | .seen v => (∃ value, v = .leave value) ∨ ∃ s ∈ v.statements, Rendering.HasReturn s
  | .sequence l => ∃ s ∈ l, Rendering.HasReturn s
  | .attempt b handler => ∃ s ∈ b :: handler.toList, Rendering.HasReturn s

theorem kind_of_view_leave {s : Node} {value : Option Node} (h : view s = .leave value) :
    s.kind = .returnStatement := by
  unfold view at h
  split at h
  all_goals first
    | assumption
    | cases h
    | (split at h <;> first | cases h | (split at h <;> cases h))

theorem hasReturn_of_view {s : Node} (h : (Code.seen (view s)).HasReturn) : HasReturn s := by
  rcases h with ⟨value, hvalue⟩ | ⟨c, hc, n, hn, hkind⟩
  · exact ⟨s, by rw [ownWalk_eq]; exact List.mem_cons_self, kind_of_view_leave hvalue⟩
  · exact ⟨n, mem_ownWalk_of_mem_view hc hn, hkind⟩

/-- What returns has a `return` in it. -/
theorem hasReturn_of_runs {code : Code} {k : Course} (h : Runs x prop truth code k) :
    ∀ o, k = .returns o → code.HasReturn := by
  have hmember {v : View} {s : Node} (hs : s ∈ v.statements) (h : HasReturn s) :
      (Code.seen v).HasReturn := .inr ⟨s, hs, h⟩
  -- the block and its handler belong to the whole, and so does the finalizer
  have hattempt {b : Node} {handler finalizer : Option Node}
      (h : (Code.attempt b handler).HasReturn) :
      (Code.seen (.guarded b handler finalizer)).HasReturn := by
    obtain ⟨s, hs, hreturn⟩ := h
    exact hmember (List.mem_append_left finalizer.toList hs) hreturn
  induction h with
  | statement s k _ ih => exact fun o hk => hasReturn_of_view (ih o hk)
  | empty => exact fun o hk => nomatch hk
  | next s rest k _ _ _ ih =>
    intro o hk
    obtain ⟨c, hc, hreturn⟩ := ih o hk
    exact ⟨c, List.mem_cons_of_mem _ hc, hreturn⟩
  | stop s rest k _ _ ih => exact fun o hk => ⟨s, List.mem_cons_self, ih o hk⟩
  | block l k _ ih => exact fun o hk => .inr (ih o hk)
  | consequence c a b k _ _ ih => exact fun o hk => hmember List.mem_cons_self (ih o hk)
  | alternative c a b k _ _ ih =>
    exact fun o hk => hmember (List.mem_cons_of_mem _ List.mem_cons_self) (ih o hk)
  | left first c b k k' hleave _ _ ih =>
    intro o hk
    -- a loop returns what its body returns
    have hbody : k = .returns o := by
      rw [hk] at hleave
      unfold Course.outOfLoop? at hleave
      split at hleave
      · cases hleave
      · cases hleave
      · cases hleave
      · exact Option.some.inj hleave
    exact hmember List.mem_cons_self (ih o hbody)
  | cases before after k _ ih =>
    intro o hk
    have hbody : k = .returns o := by
      unfold Course.outOfCases at hk
      split at hk
      · cases hk
      · exact hk
    obtain ⟨s, hs, hreturn⟩ := ih o hbody
    obtain ⟨c, hc, hs⟩ := List.mem_flatMap.mp hs
    exact hmember (List.mem_flatMap.mpr ⟨c, List.mem_append_right _ hc, hs⟩) hreturn
  | unguarded b handler k _ ih => exact fun o hk => hattempt (ih o hk)
  | finished b f handler k _ _ ih _ => exact fun o hk => hattempt (ih o hk)
  | overridden b f handler k k' _ _ _ _ ih =>
    exact fun o hk => hmember
      (List.mem_cons_of_mem _ (List.mem_append_right _ List.mem_cons_self)) (ih o hk)
  | uncaught b handler k _ _ ih => exact fun o hk => ⟨b, List.mem_cons_self, ih o hk⟩
  | caught b n k _ _ _ ih =>
    exact fun o hk => ⟨n, List.mem_cons_of_mem _ List.mem_cons_self, ih o hk⟩
  | labeled label b k _ ih =>
    intro o hk
    have hbody : k = .returns o := by
      unfold Course.pastLabel at hk
      split at hk
      · split at hk <;> cases hk
      · split at hk <;> cases hk
      · exact hk
    exact hmember List.mem_cons_self (ih o hbody)
  | leave => exact fun o _ => .inl ⟨none, rfl⟩
  | leaveWith e _ _ => exact fun o _ => .inl ⟨some e, rfl⟩
  | _ => exact fun o hk => nomatch hk

end Statements

end Rendering
end Transplant
