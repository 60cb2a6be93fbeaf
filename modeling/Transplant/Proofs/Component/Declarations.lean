import Transplant.Proofs.Comments.Site
import Mathlib.Data.List.Pairwise

/-!
# Declarations and when they are looked up

`Site.surface` goes through the statements of a module once.  It remembers the names that are
exported and looks them up at the end, but the function inside `memo(…)` or `forwardRef(…)`, and the
function that a variable is set to, it looks up on the spot.  There a function declaration that
stands further down is not known yet, although it is in force from the start.

* `Site.declared`, `Site.asked`: the names that a statement declares, and those it looks up at once
* `Site.late`: the functions that are asked for too early
* `Site.Partway.add`, `Site.Partway.foldl`: which functions are known partway through a module
* `Site.fst_resolve`: a wrapped name stands for the function of that name
* `Site.wrapped_export_lost`: what becomes of an export in front of its function
-/

namespace Transplant
namespace Site

open Node

/-! ## What a statement declares -/

/-- A function declaration that is a statement of its own. -/
def isHoisted (statement : Node) : Bool :=
  statement.kind == .functionDeclaration || statement.kind == .generatorFunctionDeclaration

/-- The name of a function declaration. -/
def functionName? (statement : Node) : Option String :=
  if isHoisted statement then (statement.child? .name).map (·.text) else none

/-- The names of the function declarations among some statements. -/
def functionNames (statements : List Node) : List String := statements.filterMap functionName?

/-- The name of a variable, unless a pattern stands in its place. -/
def declaredBy? (declarator : Node) : Option String :=
  if declarator.kind == .variableDeclarator then
    ((declarator.child? .name).filter (·.kind == .identifier)).map (·.text)
  else none

/-- The names that a declaration declares. -/
def declaredIn (declaration : Node) : List String :=
  match declaration.kind with
  | .functionDeclaration | .generatorFunctionDeclaration | .classDeclaration =>
    ((declaration.child? .name).map (·.text)).toList
  | .lexicalDeclaration | .variableDeclaration => declaration.parts.filterMap declaredBy?
  | _ => []

/-- The names that a statement declares, exported or not. -/
def declared (statement : Node) : List String :=
  if statement.kind == .exportStatement then
    ((statement.child? .declaration).map declaredIn).getD []
  else declaredIn statement

/-- What the value of a variable stands for. -/
def valueOf (defs : Definitions) (declarator : Node) : Resolved :=
  ((declarator.child? .value).map (resolve defs)).getD (none, none)

theorem declareVariable_eq (holder : Node) (acc : Definitions × List String) (declarator : Node) :
    declareVariable holder acc declarator =
      match declaredBy? declarator with
      | some name =>
        (acc.1.put name ⟨(valueOf acc.1 declarator).1, holder, (valueOf acc.1 declarator).2⟩,
          acc.2 ++ [name])
      | none => acc := by
  unfold declareVariable declaredBy? valueOf
  cases hkind : declarator.kind == .variableDeclarator with
  | false => simp [bne, hkind]
  | true =>
    cases declarator.child? .name with
    | none => simp [bne, hkind]
    | some name =>
      by_cases hname : name.kind = .identifier
      · cases declarator.child? .value <;> simp [bne, hkind, hname, Option.filter_some]
      · simp [bne, hkind, hname, Option.filter_some]

theorem foldl_declareVariable_snd (holder : Node) (l : List Node)
    (acc : Definitions × List String) :
    (l.foldl (declareVariable holder) acc).2 = acc.2 ++ l.filterMap declaredBy? := by
  induction l generalizing acc with
  | nil => simp
  | cons v rest ih =>
    rw [List.foldl_cons, ih, declareVariable_eq]
    cases hv : declaredBy? v with
    | none => rw [List.filterMap_cons_none hv]
    | some name => rw [List.filterMap_cons_some hv, List.append_assoc, List.singleton_append]

/-- Names that are not declared mean what they meant. -/
theorem get?_foldl_declareVariable {holder : Node} {l : List Node} {name : String}
    (h : name ∉ l.filterMap declaredBy?) (acc : Definitions × List String) :
    (l.foldl (declareVariable holder) acc).1.get? name = acc.1.get? name := by
  induction l generalizing acc with
  | nil => rfl
  | cons v rest ih =>
    rw [List.foldl_cons]
    cases hv : declaredBy? v with
    | none =>
      rw [List.filterMap_cons_none hv] at h
      rw [ih h, declareVariable_eq, hv]
    | some declared =>
      rw [List.filterMap_cons_some hv, List.mem_cons, not_or] at h
      rw [ih h.2, declareVariable_eq, hv, Table.get?_put, if_neg h.1]

theorem declare_snd (defs : Definitions) (declaration holder : Node) :
    (declare defs declaration holder).2 = declaredIn declaration := by
  unfold declare
  split
  case h_4 hkind | h_5 hkind =>
    rw [foldl_declareVariable_snd, List.nil_append]
    simp only [declaredIn, hkind]
  case h_6 => simp only [declaredIn]
  case h_1 hkind | h_2 hkind | h_3 hkind =>
    simp only [declaredIn, hkind]
    cases declaration.child? .name <;> rfl

theorem get?_declare {declaration : Node} {name : String} (h : name ∉ declaredIn declaration)
    (defs : Definitions) (holder : Node) :
    (declare defs declaration holder).1.get? name = defs.get? name := by
  unfold declaredIn at h
  unfold declare
  split
  case h_4 hkind | h_5 hkind =>
    simp only [hkind] at h
    exact get?_foldl_declareVariable h _
  case h_6 => rfl
  case h_1 hkind | h_2 hkind | h_3 hkind =>
    simp only [hkind] at h
    cases hname : declaration.child? .name with
    | none => rfl
    | some declared =>
      rw [hname] at h
      exact (Table.get?_put _ _ _ _).trans (if_neg fun hsame => h (List.mem_singleton.mpr hsame))

theorem get?_add {statement : Node} {name : String} (h : name ∉ declared statement) (s : Surface) :
    (s.add statement).defs.get? name = s.defs.get? name := by
  unfold declared at h
  unfold Surface.add
  cases hexport : statement.kind == .exportStatement with
  | false =>
    rw [hexport] at h
    simp only [bne, hexport, Bool.not_false, if_true]
    exact get?_declare h _ _
  | true =>
    simp only [bne, hexport, Bool.not_true, Bool.false_eq_true, if_false]
    simp only [hexport, if_true] at h
    split
    · rename_i declaration _ hdeclaration
      rw [hdeclaration] at h
      exact get?_declare h _ _
    · split <;> rfl
    · split <;> rfl

/-! ## What a statement asks for -/

/-- The name that the value of a variable is looked up under. -/
def askedBy? (declarator : Node) : Option String :=
  (declaredBy? declarator).bind fun _ => (declarator.child? .value).bind wrappedName?

/-- The names that are looked up for a declaration. -/
def askedIn (declaration : Node) : List String :=
  match declaration.kind with
  | .lexicalDeclaration | .variableDeclaration => declaration.parts.filterMap askedBy?
  | _ => []

/-- The names that are looked up when a statement is met.  An export that just names something is
looked up later. -/
def asked (statement : Node) : List String :=
  if statement.kind == .exportStatement then
    match statement.child? .declaration, statement.child? .value with
    | some declaration, _ => askedIn declaration
    | none, some value =>
      if value.unwrap.kind == .identifier then [] else (wrappedName? value).toList
    | none, none => []
  else askedIn statement

/-- For each statement that is no function declaration, the functions that it asks for and that
stand behind it. -/
def late : List Node → List (List String)
  | [] => []
  | statement :: rest =>
    if isHoisted statement then late rest
    else (asked statement).filter (functionNames rest).contains :: late rest

/-- Every function is declared once, and nothing else is declared under its name, as the language
asks of a module. -/
structure DeclaredOnce (statements : List Node) : Prop where
  functions : (functionNames statements).Nodup
  others : ∀ statement ∈ statements, isHoisted statement = false →
    ∀ name ∈ declared statement, name ∉ functionNames statements

instance (statements : List Node) : Decidable (DeclaredOnce statements) :=
  decidable_of_iff
    ((functionNames statements).Nodup ∧ ∀ statement ∈ statements, isHoisted statement = false →
      ∀ name ∈ declared statement, name ∉ functionNames statements)
    ⟨fun h => ⟨h.1, h.2⟩, fun h => ⟨h.functions, h.others⟩⟩

/-! ## Which functions are known -/

theorem functionNames_cons (statement : Node) (rest : List Node) :
    functionNames (statement :: rest) = (functionName? statement).toList ++ functionNames rest := by
  rw [functionNames, List.filterMap_cons]
  cases functionName? statement <;> rfl

theorem mem_functionNames {statements : List Node} {name : String} :
    name ∈ functionNames statements ↔ ∃ fn ∈ statements, functionName? fn = some name :=
  List.mem_filterMap

theorem isHoisted_of_functionName? {fn : Node} {name : String} (h : functionName? fn = some name) :
    isHoisted fn = true := by
  by_contra hfn
  rw [functionName?, if_neg hfn] at h
  cases h

theorem kind_of_isHoisted {fn : Node} (h : isHoisted fn = true) :
    fn.kind = .functionDeclaration ∨ fn.kind = .generatorFunctionDeclaration := by
  rwa [isHoisted, Bool.or_eq_true, beq_iff_eq, beq_iff_eq] at h

/-- A function declaration is known from now on, and nothing else changes. -/
theorem add_of_isHoisted {fn : Node} (h : isHoisted fn = true) (s : Surface) :
    s.add fn = { s with
      defs := ((functionName? fn).map fun name => s.defs.put name ⟨some fn, fn, none⟩).getD
        s.defs } := by
  rw [functionName?, if_pos h]
  rcases kind_of_isHoisted h with hkind | hkind <;>
    · simp only [Surface.add, declare, hkind]
      cases fn.child? .name <;> rfl

theorem declared_of_isHoisted {fn : Node} (h : isHoisted fn = true) :
    declared fn = (functionName? fn).toList := by
  rw [functionName?, if_pos h]
  rcases kind_of_isHoisted h with hkind | hkind <;> simp [declared, declaredIn, hkind]

/-- Two functions of one name are the same. -/
theorem DeclaredOnce.eq_of_name {all : List Node} (h : DeclaredOnce all) {fn fn' : Node}
    (hfn : fn ∈ all) (hfn' : fn' ∈ all) {name : String} (hname : functionName? fn = some name)
    (hname' : functionName? fn' = some name) : fn = fn' := by
  let Same (a b : Node) : Prop := functionName? a = some name → functionName? b = some name → a = b
  have hsame : all.Pairwise Same :=
    (List.pairwise_filterMap.mp h.functions).imp fun hne ha hb => absurd rfl (hne name ha name hb)
  have hsymm : Std.Symm Same := ⟨fun _ _ hab hb ha => (hab ha hb).symm⟩
  exact hsame.forall_of_forall (fun _ _ _ _ => rfl) hfn hfn' hname hname'

/-- Partway through the statements `all`, with `rest` still to come: of the functions declared in
`all`, those are known that do not stand in `rest`. -/
structure Partway (all rest : List Node) (s : Surface) : Prop where
  suffix : rest <:+ all
  get? : ∀ fn ∈ all, ∀ name, functionName? fn = some name →
    s.defs.get? name = if name ∈ functionNames rest then none else some ⟨some fn, fn, none⟩

theorem partway_empty (all : List Node) : Partway all all ⟨Table.empty, []⟩ where
  suffix := List.suffix_refl all
  get? fn hfn name hname := by
    rw [if_pos (mem_functionNames.mpr ⟨fn, hfn, hname⟩)]
    rfl

/-- The step of one run. -/
theorem Partway.add {all : List Node} (honce : DeclaredOnce all) {statement : Node}
    {rest : List Node} {s : Surface} (h : Partway all (statement :: rest) s) :
    Partway all rest (s.add statement) where
  suffix := (List.suffix_cons statement rest).trans h.suffix
  get? fn hfn name hname := by
    have hmem : statement ∈ all := h.suffix.subset List.mem_cons_self
    by_cases hsame : functionName? statement = some name
    · have hfirst : name ∉ functionNames rest := by
        have hnodup := (h.suffix.sublist.filterMap functionName?).nodup honce.functions
        rw [List.filterMap_cons_some hsame] at hnodup
        exact (List.nodup_cons.mp hnodup).1
      rw [honce.eq_of_name hfn hmem hname hsame, add_of_isHoisted (isHoisted_of_functionName? hsame),
        hsame, if_neg hfirst]
      exact (Table.get?_put _ _ _ _).trans (if_pos rfl)
    · have hother : name ∉ declared statement := by
        cases hhoisted : isHoisted statement with
        | true =>
          rw [declared_of_isHoisted hhoisted]
          exact fun hdeclared => hsame (Option.mem_toList.mp hdeclared)
        | false =>
          exact fun hdeclared => honce.others statement hmem hhoisted name hdeclared
            (mem_functionNames.mpr ⟨fn, hfn, hname⟩)
      have hbehind : name ∈ functionNames (statement :: rest) ↔ name ∈ functionNames rest := by
        rw [functionNames_cons, List.mem_append, Option.mem_toList]
        exact or_iff_right hsame
      rw [get?_add hother, h.get? fn hfn name hname]
      simp only [hbehind]

/-- The run over some statements. -/
theorem Partway.foldl {all : List Node} (honce : DeclaredOnce all) {first rest : List Node}
    {s : Surface} (h : Partway all (first ++ rest) s) :
    Partway all rest (first.foldl Surface.add s) := by
  induction first generalizing s with
  | nil => exact h
  | cons statement first ih => exact ih (h.add honce)

/-- The run over all statements. -/
theorem Partway.of_all {all : List Node} (honce : DeclaredOnce all) :
    Partway all [] (all.foldl Surface.add ⟨Table.empty, []⟩) :=
  Partway.foldl honce (by simpa using partway_empty all)

/-! ## Functions that are asked for too late -/

theorem late_of_unasked {ss : List Node}
    (h : ∀ s ∈ ss, isHoisted s = false → ∀ name ∈ asked s, name ∉ functionNames ss) :
    late ss = (ss.filter fun s => !isHoisted s).map fun _ => [] := by
  induction ss with
  | nil => rfl
  | cons s rest ih =>
    have hrest : ∀ name, name ∉ functionNames (s :: rest) → name ∉ functionNames rest := by
      intro name hname hmem
      rw [functionNames_cons] at hname
      exact hname (List.mem_append_right _ hmem)
    have ih := ih fun s' hs' hother name hname =>
      hrest name (h s' (List.mem_cons_of_mem _ hs') hother name hname)
    rw [late, ih]
    cases hs : isHoisted s with
    | true => simp [hs]
    | false =>
      have hnone : (asked s).filter (functionNames rest).contains = [] := by
        refine List.filter_eq_nil_iff.mpr fun name hname => ?_
        simpa using hrest name (h s List.mem_cons_self hs name hname)
      simp [hs, hnone]

/-- A value with a name inside its wrappers stands for the function of that name. -/
theorem fst_resolve {defs : Definitions} {n : Node} {name : String}
    (h : wrappedName? n = some name) :
    (resolve defs n).1 = (defs.get? name).bind (·.callable) := by
  induction n using induct_below with
  | _ n ih =>
    rw [wrappedName?_eq] at h
    rw [resolve_eq]
    split at h
    · rename_i hwrapper
      obtain ⟨c, hc, hname⟩ := Option.bind_eq_some_iff.mp h
      rw [if_pos hwrapper, hc]
      exact ih c (mem_below_of_head? hc) hname
    split at h
    · rename_i hwrapper hidentifier
      have hkind : n.kind = .identifier := beq_iff_eq.mp hidentifier
      rw [if_neg hwrapper, if_neg (by rw [hkind]; decide), if_pos hidentifier, Option.some.inj h]
      cases defs.get? name <;> rfl
    split at h
    · rename_i hwrapper hidentifier hboth
      obtain ⟨hcall, hknown⟩ := (Bool.and_eq_true _ _).mp hboth
      have hkind : n.kind = .callExpression := beq_iff_eq.mp hcall
      obtain ⟨a, ha, hpart⟩ := Option.bind_eq_some_iff.mp h
      obtain ⟨c, hc, hname⟩ := Option.bind_eq_some_iff.mp hpart
      obtain ⟨callee, hcallee, hwrappers⟩ := (Option.any_eq_true _ _).mp hknown
      rw [if_neg hwrapper, if_neg (by rw [hkind]; decide), if_neg hidentifier, if_pos hcall, hcallee,
        ha, Option.bind_some, hc]
      simp only [hwrappers, if_true, Option.map_some, Resolved.fst_within]
      exact ih c (mem_below_of_firstPart? ha hc) hname
    · cases h

/-- **A wrapped export in front of its function is lost**: its definition has no function, and no
candidate comes of it. -/
theorem wrapped_export_lost {first rest : List Node} {statement : Node}
    (honce : DeclaredOnce (first ++ statement :: rest)) (hkind : statement.kind = .exportStatement)
    (hdeclaration : statement.child? .declaration = none) {name : String}
    (hasked : name ∈ asked statement) (hlate : name ∈ functionNames rest) :
    ∃ e, ((first ++ [statement]).foldl Surface.add ⟨Table.empty, []⟩).exports =
        (first.foldl Surface.add ⟨Table.empty, []⟩).exports ++ [e] ∧
      ∀ defs found, addCandidate defs found e = found := by
  have hpartway := Partway.foldl honce (partway_empty (first ++ statement :: rest))
  have hunknown : (first.foldl Surface.add ⟨Table.empty, []⟩).defs.get? name = none := by
    obtain ⟨fn, hfn, hname⟩ := mem_functionNames.mp hlate
    have hmem : fn ∈ first ++ statement :: rest :=
      List.mem_append_right _ (List.mem_cons_of_mem _ hfn)
    rw [hpartway.get? fn hmem name hname, functionNames_cons,
      if_pos (List.mem_append_right _ hlate)]
  rw [List.foldl_append, List.foldl_cons, List.foldl_nil]
  generalize first.foldl Surface.add ⟨Table.empty, []⟩ = s at hunknown
  simp only [asked, hkind, hdeclaration, beq_self_eq_true, if_true] at hasked
  cases hvalue : statement.child? .value with
  | none =>
    rw [hvalue] at hasked
    exact absurd hasked List.not_mem_nil
  | some value =>
    simp only [hvalue] at hasked
    split at hasked
    · exact absurd hasked List.not_mem_nil
    · rename_i hwrapped
      have hnone : (resolve s.defs value).1 = none := by
        rw [fst_resolve (Option.mem_toList.mp hasked), hunknown, Option.bind_none]
      let kind : ExportKind :=
        if statement.children.any (·.isToken "default") then .default else .named
      let d : Definition := ⟨(resolve s.defs value).1, statement, (resolve s.defs value).2⟩
      refine ⟨⟨wrappedName? value.unwrap, kind, some d⟩, ?_, fun defs found => ?_⟩
      · simp only [Surface.add, hkind, hdeclaration, hvalue, bne_self_eq_false, Bool.false_eq_true,
          if_false, if_neg hwrapped]
        rfl
      · simp only [addCandidate, Option.orElse_some, d, hnone]

end Site
end Transplant
