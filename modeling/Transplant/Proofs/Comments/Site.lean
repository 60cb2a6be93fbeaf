import Transplant.Component.Site
import Transplant.Proofs.Comments.Expression

/-!
# The component of a tree without its comments

`Site.locate` goes through the statements of a module, and keeps what they define and export.  Two
runs, with and without the comments, are compared step by step: `Site.Mirrors` says that the
definitions of one are those of the other without comments, and `Site.Surface.Mirrors` says it of
definitions and exports.

* `Site.resolve_uncommented`: what a value stands for
* `Site.Surface.Mirrors.add`: the step, one statement
* `Site.locate_uncommented`: the component is found at the same place, or is missed for the same
  reason
-/

namespace Transplant

open Node

namespace Site

open Expression

/-! ## What a value stands for -/

/-- A definition without the comments in it. -/
def Definition.uncommented (d : Definition) : Definition :=
  { d with callable := d.callable.map Node.uncommented, statement := d.statement.uncommented }

/-- The definitions `defs'` are the tidy definitions `defs` without their comments. -/
structure Mirrors (defs' defs : Definitions) : Prop where
  get? : ∀ name, defs'.get? name = (defs.get? name).map Definition.uncommented
  callable : ∀ name d, defs.get? name = some d → ∀ fn, d.callable = some fn → fn.Tidy
  statement : ∀ name d, defs.get? name = some d → d.statement.Tidy

theorem mirrors_empty : Mirrors Table.empty Table.empty where
  get? _ := rfl
  callable _ _ h := by cases h
  statement _ _ h := by cases h

theorem Mirrors.put {defs' defs : Definitions} (h : Mirrors defs' defs) (name : String)
    {d : Definition} (hcallable : ∀ fn, d.callable = some fn → fn.Tidy)
    (hstatement : d.statement.Tidy) : Mirrors (defs'.put name d.uncommented) (defs.put name d) where
  get? k := by
    rw [Table.get?_put, Table.get?_put, h.get? k]
    split <;> rfl
  callable k e hk := by
    rw [Table.get?_put] at hk
    split at hk
    · obtain rfl := Option.some.inj hk
      exact hcallable
    · exact h.callable k e hk
  statement k e hk := by
    rw [Table.get?_put] at hk
    split at hk
    · obtain rfl := Option.some.inj hk
      exact hstatement
    · exact h.statement k e hk

/-- A resolution without the comments in its function. -/
def Resolved.uncommented (r : Resolved) : Resolved := (r.1.map Node.uncommented, r.2)

theorem Resolved.within_uncommented (r : Resolved) (callee : String) :
    Resolved.within r.uncommented callee = (Resolved.within r callee).uncommented := by
  obtain ⟨fn, wrapper⟩ := r
  cases wrapper with
  | none => rfl
  | some w =>
    unfold Resolved.within
    simp only [Resolved.uncommented]
    split <;> rfl

theorem Resolved.fst_within (r : Resolved) (callee : String) : (r.within callee).1 = r.1 := by
  unfold Resolved.within
  split
  · split <;> rfl
  · rfl

theorem find?_arguments {α : Type} {F : List Node → Option α} {G : List Node → Option α}
    (hnil : F [] = none)
    (hcons : ∀ c rest, F (c :: rest) =
      if c.role == some .arguments then G c.children else F rest) (n : Node) :
    F n.children = (n.child? .arguments).bind fun a => G a.children := by
  unfold child?
  generalize n.children = l
  induction l with
  | nil => exact hnil
  | cons c rest ih =>
    rw [hcons, List.find?_cons, ih]
    cases c.role == some .arguments <;> rfl

theorem resolve_eq (defs : Definitions) (n : Node) :
    resolve defs n =
      if n.kind.isWrapper then (n.namedChildren.head?.map (resolve defs)).getD (none, none)
      else if n.kind.isFunction then (some n, none)
      else if n.kind == .identifier then
        match defs.get? n.text with
        | some d => (d.callable, d.wrapper)
        | none => (none, none)
      else if n.kind == .callExpression then
        match n.child? .callee with
        | some callee =>
          if wrappers.contains callee.text then
            match (n.child? .arguments).bind fun a => a.firstPart?.map (resolve defs) with
            | some inner => inner.within callee.text
            | none => (none, none)
          else (none, none)
        | none => (none, none)
      else (none, none) := by
  have hpart (a : Node) : resolvePart? defs a.children = a.firstPart?.map (resolve defs) := by
    rw [eq_firstPart (F := resolvePart? defs) (G := fun c => some (resolve defs c))
      (by rw [resolvePart?]) (fun c rest => by rw [resolvePart?])]
    cases a.firstPart? <;> rfl
  have harguments := find?_arguments (F := resolveArguments? defs) (G := resolvePart? defs)
    (by rw [resolveArguments?]) (fun c rest => by cases c; rw [resolveArguments?]) n
  simp only [hpart] at harguments
  rw [← harguments, ← eq_firstNamed (F := resolveFirst defs) (by rw [resolveFirst])
    (fun c rest => by rw [resolveFirst])]
  cases n
  rw [resolve]
  rfl

theorem resolve_uncommented {defs' defs : Definitions} (hdefs : Mirrors defs' defs) {n : Node}
    (h : n.Tidy) :
    resolve defs' n.uncommented = (resolve defs n).uncommented ∧
      ∀ fn, (resolve defs n).1 = some fn → fn.Tidy := by
  induction n using induct_below with
  | _ n ih =>
    rw [resolve_eq, resolve_eq defs n, kind_uncommented, text_uncommented, child?_uncommented h,
      child?_uncommented h, head?_namedChildren_uncommented, hdefs.get?]
    split
    · rename_i hwrapper
      rw [h.head?_namedChildren hwrapper]
      cases hpart : n.firstPart? with
      | none => exact ⟨rfl, fun fn hfn => by cases hfn⟩
      | some c =>
        exact ih c (mem_below_of_mem_parts (List.mem_of_head? hpart)) (h.of_firstPart? hpart)
    split
    · refine ⟨rfl, fun fn hfn => ?_⟩
      obtain rfl := Option.some.inj hfn
      exact h
    split
    · cases hd : defs.get? n.text with
      | none => exact ⟨rfl, fun fn hfn => by cases hfn⟩
      | some d => exact ⟨rfl, fun fn hfn => hdefs.callable _ d hd fn hfn⟩
    split
    · cases n.child? .callee with
      | none => exact ⟨rfl, fun fn hfn => by cases hfn⟩
      | some callee =>
        simp only [Option.map_some, text_uncommented]
        split
        · cases harguments : n.child? .arguments with
          | none => exact ⟨rfl, fun fn hfn => by cases hfn⟩
          | some a =>
            simp only [Option.map_some, Option.bind_some, firstPart?_uncommented]
            cases hpart : a.firstPart? with
            | none => exact ⟨rfl, fun fn hfn => by cases hfn⟩
            | some c =>
              obtain ⟨hsame, htidy⟩ := ih c (mem_below_of_firstPart? harguments hpart)
                ((h.of_child? harguments).of_firstPart? hpart)
              simp only [Option.map_some, hsame]
              refine ⟨Resolved.within_uncommented _ _, fun fn hfn => htidy fn ?_⟩
              rwa [Resolved.fst_within] at hfn
        · exact ⟨rfl, fun fn hfn => by cases hfn⟩
    · exact ⟨rfl, fun fn hfn => by cases hfn⟩

theorem wrappedName?_eq (n : Node) :
    wrappedName? n =
      if n.kind.isWrapper then n.namedChildren.head?.bind wrappedName?
      else if n.kind == .identifier then some n.text
      else if n.kind == .callExpression && (n.child? .callee).any (wrappers.contains ·.text) then
        (n.child? .arguments).bind fun a => a.firstPart?.bind wrappedName?
      else none := by
  have hbind (o : Option Node) : (o.map wrappedName?).getD none = o.bind wrappedName? := by
    cases o <;> rfl
  have hpart (a : Node) : partName? a.children = a.firstPart?.bind wrappedName? := by
    rw [eq_firstPart (F := partName?) (by rw [partName?]) (fun c rest => by rw [partName?]), hbind]
  have harguments := find?_arguments (F := argumentName?) (G := partName?)
    (by rw [argumentName?]) (fun c rest => by cases c; rw [argumentName?]) n
  simp only [hpart] at harguments
  rw [← harguments, ← hbind, ← eq_firstNamed (F := firstWrappedName?) (by rw [firstWrappedName?])
    (fun c rest => by rw [firstWrappedName?])]
  cases n
  rw [wrappedName?]
  rfl

theorem wrappedName?_uncommented {n : Node} (h : n.Tidy) :
    wrappedName? n.uncommented = wrappedName? n := by
  induction n using induct_below with
  | _ n ih =>
    rw [wrappedName?_eq, wrappedName?_eq n, kind_uncommented, text_uncommented,
      child?_uncommented h, child?_uncommented h, head?_namedChildren_uncommented,
      any_map_uncommented fun c _ => by rw [text_uncommented]]
    split
    · rename_i hwrapper
      rw [h.head?_namedChildren hwrapper]
      cases hpart : n.firstPart? with
      | none => rfl
      | some c =>
        exact ih c (mem_below_of_mem_parts (List.mem_of_head? hpart)) (h.of_firstPart? hpart)
    split
    · rfl
    split
    · cases harguments : n.child? .arguments with
      | none => rfl
      | some a =>
        simp only [Option.map_some, Option.bind_some, firstPart?_uncommented]
        cases hpart : a.firstPart? with
        | none => rfl
        | some c =>
          exact ih c (mem_below_of_firstPart? harguments hpart)
            ((h.of_child? harguments).of_firstPart? hpart)
    · rfl

/-! ## Definitions and exports -/

theorem declareVariable_uncommented {acc' acc : Definitions × List String}
    {holder declarator : Node} (hholder : holder.Tidy) (h : declarator.Tidy) (hdefs : Mirrors acc'.1 acc.1)
    (hnames : acc'.2 = acc.2) :
    Mirrors (declareVariable holder.uncommented acc' declarator.uncommented).1
        (declareVariable holder acc declarator).1 ∧
      (declareVariable holder.uncommented acc' declarator.uncommented).2 =
        (declareVariable holder acc declarator).2 := by
  unfold declareVariable
  rw [kind_uncommented, child?_uncommented h, child?_uncommented h]
  split
  · exact ⟨hdefs, hnames⟩
  cases declarator.child? .name with
  | none => exact ⟨hdefs, hnames⟩
  | some name =>
    simp only [Option.map_some, kind_uncommented, text_uncommented]
    split
    · exact ⟨hdefs, hnames⟩
    refine ⟨?_, by rw [hnames]⟩
    cases hvalue : declarator.child? .value with
    | none =>
      exact hdefs.put name.text (d := ⟨none, holder, none⟩) (fun fn hfn => by cases hfn) hholder
    | some value =>
      obtain ⟨hsame, htidy⟩ := resolve_uncommented hdefs (h.of_child? hvalue)
      simp only [Option.map_some, hsame]
      exact hdefs.put name.text (d := ⟨(resolve acc.1 value).1, holder, (resolve acc.1 value).2⟩)
        htidy hholder

theorem foldl_declareVariable_uncommented {holder : Node} (hholder : holder.Tidy) {l : List Node}
    (hl : ∀ c ∈ l, c.Tidy) {acc' acc : Definitions × List String} (hdefs : Mirrors acc'.1 acc.1)
    (hnames : acc'.2 = acc.2) :
    Mirrors ((l.map uncommented).foldl (declareVariable holder.uncommented) acc').1
        (l.foldl (declareVariable holder) acc).1 ∧
      ((l.map uncommented).foldl (declareVariable holder.uncommented) acc').2 =
        (l.foldl (declareVariable holder) acc).2 := by
  induction l generalizing acc' acc with
  | nil => exact ⟨hdefs, hnames⟩
  | cons c rest ih =>
    obtain ⟨hstep, hsame⟩ :=
      declareVariable_uncommented hholder (hl c List.mem_cons_self) hdefs hnames
    exact ih (fun m hm => hl m (List.mem_cons_of_mem _ hm)) hstep hsame

theorem declare_uncommented {defs' defs : Definitions} (hdefs : Mirrors defs' defs)
    {statement holder : Node} (h : statement.Tidy) (hholder : holder.Tidy) :
    Mirrors (declare defs' statement.uncommented holder.uncommented).1
        (declare defs statement holder).1 ∧
      (declare defs' statement.uncommented holder.uncommented).2 =
        (declare defs statement holder).2 := by
  unfold declare
  rw [kind_uncommented, child?_uncommented h, parts_uncommented]
  split
  case h_4 | h_5 =>
    exact foldl_declareVariable_uncommented hholder (fun c hc => h.of_mem_parts hc) hdefs rfl
  case h_6 => exact ⟨hdefs, rfl⟩
  case h_3 =>
    cases statement.child? .name with
    | none => exact ⟨hdefs, rfl⟩
    | some name =>
      simp only [Option.map_some, text_uncommented]
      exact ⟨hdefs.put name.text (d := ⟨none, holder, none⟩) (fun fn hfn => by cases hfn) hholder,
        trivial⟩
  all_goals
    cases statement.child? .name with
    | none => exact ⟨hdefs, rfl⟩
    | some name =>
      simp only [Option.map_some, text_uncommented]
      refine ⟨hdefs.put name.text (d := ⟨some statement, holder, none⟩) (fun fn hfn => ?_) hholder,
        trivial⟩
      obtain rfl := Option.some.inj hfn
      exact h

/-- An export without the comments in its own definition. -/
def Export.uncommented (e : Export) : Export :=
  { e with anonymous := e.anonymous.map Definition.uncommented }

theorem listedExports_uncommented {statement : Node} (h : statement.Tidy) :
    listedExports statement.uncommented = listedExports statement := by
  unfold listedExports
  rw [filter_walk_uncommented h (· == .exportSpecifier) rfl, List.filterMap_map]
  refine List.filterMap_congr fun spec hspec => ?_
  rw [List.mem_filter] at hspec
  have hkind : spec.kind = .exportSpecifier := by simpa using hspec.2
  have htidy : spec.Tidy := h.of_mem_walk hspec.1 (by rw [hkind]; decide)
  rw [Function.comp_apply, child?_uncommented htidy, child?_uncommented htidy,
    any_map_uncommented fun c _ => by rw [text_uncommented], Option.map_map]
  simp only [Function.comp_def, text_uncommented]

theorem anonymous_of_mem_listedExports {statement : Node} {e : Export}
    (h : e ∈ listedExports statement) : e.anonymous = none := by
  obtain ⟨spec, -, hspec⟩ := List.mem_filterMap.mp h
  obtain ⟨name, -, rfl⟩ := Option.map_eq_some_iff.mp hspec
  rfl

/-- The surface `s'` is the tidy surface `s` without its comments. -/
structure Surface.Mirrors (s' s : Surface) : Prop where
  defs : Site.Mirrors s'.defs s.defs
  exports : s'.exports = s.exports.map Export.uncommented
  callable : ∀ e ∈ s.exports, ∀ d, e.anonymous = some d → ∀ fn, d.callable = some fn → fn.Tidy
  statement : ∀ e ∈ s.exports, ∀ d, e.anonymous = some d → d.statement.Tidy

/-- Exports that are mere names are the same on both sides. -/
theorem Surface.Mirrors.append_names {s' s : Surface} (h : Surface.Mirrors s' s)
    {defs' defs : Definitions} (hdefs : Site.Mirrors defs' defs) {l : List Export}
    (hl : ∀ e ∈ l, e.anonymous = none) :
    Surface.Mirrors ⟨defs', s'.exports ++ l⟩ ⟨defs, s.exports ++ l⟩ where
  defs := hdefs
  exports := by
    have hsame : l.map Export.uncommented = l := by
      refine (List.map_congr_left fun e he => ?_).trans (List.map_id l)
      rw [Export.uncommented, hl e he, Option.map_none, ← hl e he]
      rfl
    rw [h.exports, List.map_append, hsame]
  callable e he d hd := by
    rcases List.mem_append.mp he with he | he
    · exact h.callable e he d hd
    · rw [hl e he] at hd
      cases hd
  statement e he d hd := by
    rcases List.mem_append.mp he with he | he
    · exact h.statement e he d hd
    · rw [hl e he] at hd
      cases hd

theorem Surface.Mirrors.add {s' s : Surface} (h : Surface.Mirrors s' s) {statement : Node}
    (hs : statement.Tidy) : Surface.Mirrors (s'.add statement.uncommented) (s.add statement) := by
  unfold Surface.add
  rw [kind_uncommented, any_isToken_uncommented, child?_uncommented hs, child?_uncommented hs,
    child?_uncommented hs, listedExports_uncommented hs]
  split
  · exact { h with defs := (declare_uncommented h.defs hs hs).1 }
  cases hdeclaration : statement.child? .declaration with
  | some declaration =>
    obtain ⟨hdefs, hnames⟩ := declare_uncommented h.defs (hs.of_child? hdeclaration) hs
    simp only [Option.map_some, hnames]
    refine h.append_names hdefs fun e he => ?_
    obtain ⟨name, -, rfl⟩ := List.mem_map.mp he
    rfl
  | none =>
    cases hvalue : statement.child? .value with
    | none =>
      simp only [Option.map_none, Option.isSome_map]
      split
      · exact h
      · exact h.append_names h.defs fun e he => anonymous_of_mem_listedExports he
    | some value =>
      have htidy := hs.of_child? hvalue
      simp only [Option.map_none, Option.map_some, unwrap_uncommented htidy, kind_uncommented,
        text_uncommented]
      split
      · exact h.append_names h.defs fun e he => by
          rw [List.mem_singleton.mp he]
      · obtain ⟨hsame, hcallable⟩ := resolve_uncommented h.defs htidy
        rw [hsame, wrappedName?_uncommented htidy.unwrap]
        refine ⟨h.defs, ?_, fun e he d hd => ?_, fun e he d hd => ?_⟩
        · rw [h.exports, List.map_append]
          rfl
        all_goals
          rcases List.mem_append.mp he with he | he
        · exact h.callable e he d hd
        · rw [List.mem_singleton.mp he] at hd
          obtain rfl := Option.some.inj hd
          exact hcallable
        · exact h.statement e he d hd
        · rw [List.mem_singleton.mp he] at hd
          obtain rfl := Option.some.inj hd
          exact hs

theorem surface_uncommented {root : Node} (h : root.Tidy) :
    Surface.Mirrors (surface root.uncommented) (surface root) := by
  have hall : ∀ (l : List Node), (∀ c ∈ l, c.Tidy) → ∀ {s' s : Surface}, Surface.Mirrors s' s →
      Surface.Mirrors ((l.map uncommented).foldl Surface.add s') (l.foldl Surface.add s) := by
    intro l hl
    induction l with
    | nil => exact fun hs => hs
    | cons c rest ih =>
      exact fun hs => ih (fun m hm => hl m (List.mem_cons_of_mem _ hm))
        (hs.add (hl c List.mem_cons_self))
  rw [surface, parts_uncommented]
  exact hall root.parts (fun c hc => h.of_mem_parts hc)
    ⟨mirrors_empty, rfl, fun e he => absurd he List.not_mem_nil,
      fun e he => absurd he List.not_mem_nil⟩

/-! ## Candidates -/

/-- Whether the first of the parameters, if there is one, can be the props. -/
def takesProps (params : List Node) : Bool :=
  params.head?.all fun param =>
    let kind := (Function.pattern param).1.kind
    kind == .identifier || kind == .objectPattern

/-- Whether a function can return markup. -/
def rendersMarkup (fn : Node) : Bool :=
  (fn.child? .body).any fun body =>
    if body.kind != .statementBlock then returnsMarkup body
    else body.ownNodes.any fun n => n.kind == .returnStatement && n.firstPart?.any returnsMarkup

theorem isComponent_eq (fn : Node) (wrapper : Option String) :
    isComponent fn wrapper =
      (decide ((Function.params fn).length ≤
          if wrapper.any (Text.endsWith · "forwardRef") then 2 else 1) &&
        takesProps (Function.params fn) && rendersMarkup fn) := by
  simp only [isComponent, takesProps, rendersMarkup]
  cases (Function.params fn).head? <;> cases fn.child? .body <;> rfl

theorem takesProps_uncommented {params : List Node} (h : ∀ p ∈ params, p.Tidy) :
    takesProps (params.map uncommented) = takesProps params := by
  rw [takesProps, List.head?_map, takesProps]
  cases hhead : params.head? with
  | none => rfl
  | some param =>
    simp only [Option.map_some, Option.all_some,
      Function.pattern_uncommented (h param (List.mem_of_head? hhead)), kind_uncommented]

theorem rendersMarkup_uncommented {fn : Node} (h : fn.Tidy) :
    rendersMarkup fn.uncommented = rendersMarkup fn := by
  rw [rendersMarkup, child?_uncommented h, rendersMarkup]
  refine any_map_uncommented fun body hbody => ?_
  have htidy := h.of_child? hbody
  rw [kind_uncommented, returnsMarkup_uncommented htidy, ownNodes_uncommented htidy]
  congr 1
  refine any_uncommented (fun c hc hkind => ?_) fun c hc hkind => by simp [hkind]
  have hreturn := htidy.of_mem_walk (mem_walk_of_mem_ownNodes hc) hkind
  rw [kind_uncommented, firstPart?_uncommented,
    any_map_uncommented fun e he => returnsMarkup_uncommented (hreturn.of_firstPart? he)]

theorem isComponent_uncommented {fn : Node} (h : fn.Tidy) (wrapper : Option String) :
    isComponent fn.uncommented wrapper = isComponent fn wrapper := by
  rw [isComponent_eq, isComponent_eq, Function.params_uncommented h, List.length_map,
    takesProps_uncommented fun p hp => Function.tidy_of_mem_params h hp,
    rendersMarkup_uncommented h]

/-- A candidate without the comments in it. -/
def Candidate.uncommented (c : Candidate) : Candidate :=
  { c with callable := c.callable.uncommented, statement := c.statement.uncommented }

/-- A candidate whose function and statement are tidy. -/
def Candidate.Tidy (c : Candidate) : Prop := c.callable.Tidy ∧ c.statement.Tidy

theorem definition_uncommented {s' s : Surface} (h : Surface.Mirrors s' s) {e : Export}
    (he : e ∈ s.exports) :
    (e.uncommented.anonymous.orElse fun _ => s'.defs.get? (e.uncommented.binding.getD "")) =
        (e.anonymous.orElse fun _ => s.defs.get? (e.binding.getD "")).map Definition.uncommented ∧
      ∀ d, (e.anonymous.orElse fun _ => s.defs.get? (e.binding.getD "")) = some d →
        (∀ fn, d.callable = some fn → fn.Tidy) ∧ d.statement.Tidy := by
  cases hown : e.anonymous with
  | some d =>
    refine ⟨by simp [Export.uncommented, hown], fun d' hd' => ?_⟩
    obtain rfl := Option.some.inj hd'
    exact ⟨h.callable e he d hown, h.statement e he d hown⟩
  | none =>
    refine ⟨?_, fun d hd => ⟨h.defs.callable _ d hd, h.defs.statement _ d hd⟩⟩
    simp [Export.uncommented, hown, h.defs.get?]

theorem addCandidate_uncommented {s' s : Surface} (h : Surface.Mirrors s' s) {e : Export}
    (he : e ∈ s.exports) {found : List Candidate} (hfound : ∀ c ∈ found, c.Tidy) :
    addCandidate s'.defs (found.map Candidate.uncommented) e.uncommented =
        (addCandidate s.defs found e).map Candidate.uncommented ∧
      ∀ c ∈ addCandidate s.defs found e, c.Tidy := by
  obtain ⟨hsame, htidy⟩ := definition_uncommented h he
  unfold addCandidate
  rw [hsame]
  cases hd : e.anonymous.orElse fun _ => s.defs.get? (e.binding.getD "") with
  | none => exact ⟨rfl, hfound⟩
  | some d =>
    obtain ⟨hcallable, hstatement⟩ := htidy d hd
    simp only [Option.map_some, Definition.uncommented]
    cases hfn : d.callable with
    | none => exact ⟨rfl, hfound⟩
    | some fn =>
      have hany : (found.map Candidate.uncommented).any (·.callable.start == fn.start) =
          found.any (·.callable.start == fn.start) := by
        simp only [List.any_map, Function.comp_def, Candidate.uncommented, start_uncommented]
      simp only [Option.map_some, isComponent_uncommented (hcallable fn hfn), start_uncommented,
        hany]
      split
      · exact ⟨rfl, hfound⟩
      split
      · refine ⟨?_, fun c hc => ?_⟩
        · rw [List.map_map, List.map_map]
          refine List.map_congr_left fun c _ => ?_
          simp only [Function.comp_apply, Candidate.uncommented, start_uncommented]
          split <;> rfl
        · obtain ⟨c', hc', rfl⟩ := List.mem_map.mp hc
          split
          · exact hfound c' hc'
          · exact hfound c' hc'
      · refine ⟨by rw [List.map_append]; rfl, fun c hc => ?_⟩
        rcases List.mem_append.mp hc with hc | hc
        · exact hfound c hc
        · rw [List.mem_singleton.mp hc]
          exact ⟨hcallable fn hfn, hstatement⟩

theorem candidates_uncommented {root : Node} (h : root.Tidy) :
    candidates root.uncommented = (candidates root).map Candidate.uncommented ∧
      ∀ c ∈ candidates root, c.Tidy := by
  have hsurface := surface_uncommented h
  have hall : ∀ l : List Export, (∀ e ∈ l, e ∈ (surface root).exports) →
      ∀ found : List Candidate, (∀ c ∈ found, c.Tidy) →
      (l.map Export.uncommented).foldl (addCandidate (surface root.uncommented).defs)
          (found.map Candidate.uncommented) =
        (l.foldl (addCandidate (surface root).defs) found).map Candidate.uncommented ∧
      ∀ c ∈ l.foldl (addCandidate (surface root).defs) found, c.Tidy := by
    intro l hl
    induction l with
    | nil => exact fun found hfound => ⟨rfl, hfound⟩
    | cons e rest ih =>
      intro found hfound
      obtain ⟨hsame, htidy⟩ := addCandidate_uncommented hsurface (hl e List.mem_cons_self) hfound
      rw [List.map_cons, List.foldl_cons, List.foldl_cons, hsame]
      exact ih (fun m hm => hl m (List.mem_cons_of_mem _ hm)) _ htidy
  unfold candidates
  simp only [hsurface.exports]
  exact hall _ (fun _ he => he) [] fun c hc => absurd hc List.not_mem_nil

/-- A site without the comments in it. -/
def uncommented (s : Site) : Site :=
  { s with callable := s.callable.uncommented, statement := s.statement.uncommented }

/-- A site whose function and statement are tidy. -/
def Tidy (s : Site) : Prop := s.callable.Tidy ∧ s.statement.Tidy

theorem locate_uncommented {root : Node} (h : root.Tidy) (path : String) :
    locate root.uncommented path = (locate root path).map uncommented ∧
      ∀ site, locate root path = .ok site → site.Tidy := by
  obtain ⟨hsame, htidy⟩ := candidates_uncommented h
  unfold locate
  rw [hsame]
  rcases hlist : candidates root with _ | ⟨c, _ | ⟨c', rest⟩⟩
  · exact ⟨rfl, fun site hsite => by cases hsite⟩
  · have hc := htidy c (by rw [hlist]; exact List.mem_cons_self)
    refine ⟨?_, fun site hsite => ?_⟩
    · simp only [List.map_cons, List.map_nil, Except.map, uncommented, Candidate.uncommented,
        child?_uncommented hc.1, Option.map_map, Function.comp_def, text_uncommented]
    · obtain rfl := Except.ok.inj hsite
      exact hc
  · refine ⟨?_, fun site hsite => by cases hsite⟩
    simp only [List.map_cons, Except.map, List.length_cons, List.length_map, List.map_map,
      Function.comp_def, Candidate.uncommented]

end Site
end Transplant
