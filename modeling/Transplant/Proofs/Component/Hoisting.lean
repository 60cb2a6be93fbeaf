import Transplant.Proofs.Comments.Descriptor
import Transplant.Proofs.Component.Declarations
import Transplant.Proofs.Component.Places
import Transplant.Proofs.Grammar.ComponentNames

/-!
# Function declarations that stand elsewhere

A function declaration of a module is in force before the first statement runs, so it may stand in
front of the statements that use it or behind them.  The component is found, and found to be the
same, wherever the function declarations stand, if every statement finds the same of the functions
that it asks for behind it.  Two runs over the statements, before and after the move, are compared
step by step: a statement that is no function declaration is met by both at once, and a function
declaration by one of them at a time.

* `Site.Rearranged`: function declarations have been moved, all else has kept its order
* `Site.Surface.Agrees.add`: the step that both runs make
* `Site.Rearranged.agrees_foldl`: the runs
* `Site.locate_rearranged`, `Site.told_rearranged`: the component is found as before
* `Site.wrapped_function_missed`: a component that is lost
* `Site.told_rearranged_of_unasked`: modules in which function declarations may be moved at will
-/

namespace Transplant
namespace Site

open Node

/-! ## Moving function declarations -/

/-- The statements `ss'` are the statements `ss` with function declarations moved: `f` says where
everything has gone.  The other statements are in the order in which they were. -/
structure Rearranged (f : Node → Node) (ss ss' : List Node) : Prop where
  others : ss'.filter (fun s => !isHoisted s) = (ss.filter fun s => !isHoisted s).map f
  hoisted : (ss'.filter isHoisted).Perm ((ss.filter isHoisted).map f)

instance (f : Node → Node) (ss ss' : List Node) : Decidable (Rearranged f ss ss') :=
  decidable_of_iff (_ ∧ _) ⟨fun h => ⟨h.1, h.2⟩, fun h => ⟨h.others, h.hoisted⟩⟩

section Relocation

variable {f : Node → Node} (hf : Relocation f)

include hf

theorem isHoisted_relocated (s : Node) : isHoisted (f s) = isHoisted s := by
  rw [isHoisted, hf.kind, isHoisted]

theorem functionName?_relocated (s : Node) : functionName? (f s) = functionName? s := by
  rw [functionName?, isHoisted_relocated hf, hf.child?, hf.map_text, functionName?]

theorem declaredBy?_relocated (v : Node) : declaredBy? (f v) = declaredBy? v := by
  rw [declaredBy?, hf.kind, hf.child?, Option.filter_map, hf.map_text, declaredBy?]
  simp only [Function.comp_def, hf.kind]

theorem declaredIn_relocated (d : Node) : declaredIn (f d) = declaredIn d := by
  simp only [declaredIn, hf.kind, hf.child?, hf.map_text, hf.parts, List.filterMap_map,
    Function.comp_def, declaredBy?_relocated hf]

theorem declared_relocated (s : Node) : declared (f s) = declared s := by
  simp only [declared, hf.kind, hf.child?, declaredIn_relocated hf, Option.map_map,
    Function.comp_def]

theorem askedBy?_relocated (v : Node) : askedBy? (f v) = askedBy? v := by
  rw [askedBy?, declaredBy?_relocated hf, hf.child?, Option.bind_map, askedBy?]
  simp only [Function.comp_def, hf.wrappedName?]

theorem askedIn_relocated (d : Node) : askedIn (f d) = askedIn d := by
  simp only [askedIn, hf.kind, hf.parts, List.filterMap_map, Function.comp_def,
    askedBy?_relocated hf]

theorem asked_relocated (s : Node) : asked (f s) = asked s := by
  rw [asked, hf.kind, hf.child?, hf.child?, askedIn_relocated hf, asked]
  cases s.child? .declaration with
  | some d => simp only [Option.map_some, askedIn_relocated hf]
  | none =>
    cases s.child? .value with
    | none => rfl
    | some value =>
      simp only [Option.map_none, Option.map_some, hf.unwrap, hf.kind, hf.wrappedName?]

end Relocation

/-! ## Two runs side by side -/

/-- A definition at its new place. -/
def Definition.relocated (f : Node → Node) (d : Definition) : Definition :=
  { d with callable := d.callable.map f, statement := f d.statement }

/-- A resolution whose function is at its new place. -/
def Resolved.relocated (f : Node → Node) (r : Resolved) : Resolved := (r.1.map f, r.2)

/-- An export whose own definition is at its new place. -/
def Export.relocated (f : Node → Node) (e : Export) : Export :=
  { e with anonymous := e.anonymous.map (Definition.relocated f) }

/-- A definition by a function, or of something that is none. -/
def Definition.OfFunction (d : Definition) : Prop :=
  ∀ fn, d.callable = some fn → fn.kind.isFunction = true

variable {f : Node → Node} {A : Set String}

/-- The names in `A` mean the same in both runs. -/
structure Agrees (f : Node → Node) (A : Set String) (defs' defs : Definitions) : Prop where
  get? : ∀ name ∈ A, defs'.get? name = (defs.get? name).map (Definition.relocated f)
  ofFunction : ∀ name d, defs.get? name = some d → d.OfFunction

theorem Agrees.put {defs' defs : Definitions} (h : Agrees f A defs' defs) (name : String)
    {d : Definition} (hd : d.OfFunction) :
    Agrees f A (defs'.put name (d.relocated f)) (defs.put name d) where
  get? k hk := by
    rw [Table.get?_put, Table.get?_put, h.get? k hk]
    split <;> rfl
  ofFunction k e hk := by
    rw [Table.get?_put] at hk
    split at hk
    · exact Option.some.inj hk ▸ hd
    · exact h.ofFunction k e hk

/-! ### What a value stands for -/

theorem Resolved.within_relocated (r : Resolved) (callee : String) :
    Resolved.within (r.relocated f) callee = (r.within callee).relocated f := by
  obtain ⟨fn, wrapper⟩ := r
  cases wrapper with
  | none => rfl
  | some w =>
    unfold Resolved.within
    simp only [Resolved.relocated]
    split <;> rfl

/-- A value is looked up under one name at most, so it depends on the meaning of that name only. -/
theorem resolve_relocated (hf : Relocation f) {defs' defs : Definitions} {n : Node}
    (h : ∀ name, wrappedName? n = some name →
      defs'.get? name = (defs.get? name).map (Definition.relocated f)) :
    resolve defs' (f n) = (resolve defs n).relocated f := by
  induction n using induct_below with
  | _ n ih =>
    rw [resolve_eq, resolve_eq defs n, hf.kind, hf.text, hf.child?, hf.child?, hf.namedChildren,
      List.head?_map]
    rw [wrappedName?_eq] at h
    split
    · rename_i hwrapper
      rw [if_pos hwrapper] at h
      cases hfirst : n.namedChildren.head? with
      | none => rfl
      | some c =>
        rw [hfirst] at h
        exact ih c (mem_below_of_head? hfirst) h
    rename_i hwrapper
    rw [if_neg hwrapper] at h
    split
    · rfl
    split
    · rename_i hidentifier
      rw [if_pos hidentifier] at h
      rw [h _ rfl]
      cases defs.get? n.text <;> rfl
    rename_i hidentifier
    rw [if_neg hidentifier] at h
    split
    · rename_i hcall
      cases hcallee : n.child? .callee with
      | none => rfl
      | some callee =>
        simp only [Option.map_some, hf.text]
        split
        · rename_i hknown
          rw [if_pos (by rw [hcall, hcallee]; exact hknown)] at h
          cases harguments : n.child? .arguments with
          | none => rfl
          | some a =>
            simp only [Option.map_some, Option.bind_some, hf.firstPart?]
            cases hpart : a.firstPart? with
            | none => rfl
            | some c =>
              rw [harguments, Option.bind_some, hpart] at h
              simp only [Option.map_some, ih c (mem_below_of_firstPart? harguments hpart) h]
              exact Resolved.within_relocated _ _
        · rfl
    · rfl

theorem Agrees.ofFunction_resolve {defs' defs : Definitions} (h : Agrees f A defs' defs)
    (n holder : Node) (wrapper : Option String) :
    Definition.OfFunction ⟨(resolve defs n).1, holder, wrapper⟩ := by
  intro fn hfn
  rcases mem_walk_of_resolve hfn with ⟨hfunction, -⟩ | ⟨name, d, hd, hcallable⟩
  · exact hfunction
  · exact h.ofFunction name d hd fn hcallable

theorem Agrees.valueOf {defs' defs : Definitions} (hf : Relocation f)
    (h : Agrees f A defs' defs) {declarator : Node} {name : String}
    (hname : declaredBy? declarator = some name)
    (hasked : ∀ name ∈ askedBy? declarator, name ∈ A) (holder : Node) :
    valueOf defs' (f declarator) = (valueOf defs declarator).relocated f ∧
      Definition.OfFunction ⟨(valueOf defs declarator).1, holder, (valueOf defs declarator).2⟩ := by
  unfold Site.valueOf
  rw [hf.child?]
  cases hvalue : declarator.child? .value with
  | none => exact ⟨rfl, fun fn hfn => by cases hfn⟩
  | some value =>
    refine ⟨resolve_relocated hf fun k hk => h.get? k (hasked k ?_),
      h.ofFunction_resolve value holder _⟩
    rw [askedBy?, hname, hvalue]
    exact hk

/-! ### One statement -/

theorem Agrees.foldl_declareVariable (hf : Relocation f) (holder : Node) {l : List Node}
    (hasked : ∀ name ∈ l.filterMap askedBy?, name ∈ A) {acc' acc : Definitions × List String}
    (h : Agrees f A acc'.1 acc.1) :
    Agrees f A ((l.map f).foldl (declareVariable (f holder)) acc').1
      (l.foldl (declareVariable holder) acc).1 := by
  induction l generalizing acc' acc with
  | nil => exact h
  | cons v rest ih =>
    have hrest : ∀ name ∈ rest.filterMap askedBy?, name ∈ A := fun name hname =>
      hasked name (((List.sublist_cons_self v rest).filterMap askedBy?).subset hname)
    rw [List.map_cons, List.foldl_cons, List.foldl_cons]
    refine ih hrest ?_
    rw [declareVariable_eq, declareVariable_eq, declaredBy?_relocated hf]
    cases hname : declaredBy? v with
    | none => exact h
    | some name =>
      obtain ⟨hsame, hfunction⟩ := h.valueOf hf hname
        (fun k hk => hasked k (List.mem_filterMap.mpr ⟨v, List.mem_cons_self, hk⟩)) holder
      simp only [hsame]
      exact h.put name hfunction

theorem Agrees.declare (hf : Relocation f) {defs' defs : Definitions} (h : Agrees f A defs' defs)
    {declaration : Node} (holder : Node) (hasked : ∀ name ∈ askedIn declaration, name ∈ A) :
    Agrees f A (declare defs' (f declaration) (f holder)).1 (declare defs declaration holder).1 := by
  unfold askedIn at hasked
  unfold Site.declare
  rw [hf.kind, hf.child?, hf.parts]
  split
  case h_4 hkind | h_5 hkind =>
    simp only [hkind] at hasked
    exact Agrees.foldl_declareVariable hf holder hasked h
  case h_6 => exact h
  case h_3 =>
    cases declaration.child? .name with
    | none => exact h
    | some name =>
      simp only [Option.map_some, hf.text]
      exact h.put name.text (d := ⟨none, holder, none⟩) fun fn hfn => by cases hfn
  case h_1 hkind | h_2 hkind =>
    cases declaration.child? .name with
    | none => exact h
    | some name =>
      simp only [Option.map_some, hf.text]
      refine h.put name.text (d := ⟨some declaration, holder, none⟩) fun fn hfn => ?_
      rw [← Option.some.inj hfn, hkind]
      rfl

/-- The names in `A` mean the same in both runs, and the same has been exported. -/
structure Surface.Agrees (f : Node → Node) (A : Set String) (s' s : Surface) : Prop where
  defs : Site.Agrees f A s'.defs s.defs
  exports : s'.exports = s.exports.map (Export.relocated f)
  ofFunction : ∀ e ∈ s.exports, ∀ d, e.anonymous = some d → d.OfFunction

/-- The names that are known to mean the same do not matter for the rest. -/
theorem Surface.Agrees.extend {s' s : Surface} (h : Surface.Agrees f A s' s) {B : Set String}
    (hB : ∀ name ∈ B, s'.defs.get? name = (s.defs.get? name).map (Definition.relocated f)) :
    Surface.Agrees f B s' s :=
  { h with defs := ⟨hB, h.defs.ofFunction⟩ }

/-- Exports that are mere names are the same in both runs. -/
theorem Surface.Agrees.append_names {s' s : Surface} (h : Surface.Agrees f A s' s)
    {defs' defs : Definitions} (hdefs : Site.Agrees f A defs' defs) {l : List Export}
    (hl : ∀ e ∈ l, e.anonymous = none) :
    Surface.Agrees f A ⟨defs', s'.exports ++ l⟩ ⟨defs, s.exports ++ l⟩ where
  defs := hdefs
  exports := by
    have hsame : l.map (Export.relocated f) = l := by
      refine (List.map_congr_left fun e he => ?_).trans (List.map_id l)
      rw [Export.relocated, hl e he, Option.map_none, ← hl e he]
      rfl
    rw [h.exports, List.map_append, hsame]
  ofFunction e he d hd := by
    rcases List.mem_append.mp he with he | he
    · exact h.ofFunction e he d hd
    · rw [hl e he] at hd
      cases hd

/-- The step: both runs meet the same statement, and the names it asks for mean the same. -/
theorem Surface.Agrees.add (hf : Relocation f) {s' s : Surface} (h : Surface.Agrees f A s' s)
    {statement : Node} (hasked : ∀ name ∈ asked statement, name ∈ A) :
    Surface.Agrees f A (s'.add (f statement)) (s.add statement) := by
  unfold asked at hasked
  unfold Surface.add
  rw [hf.kind, hf.any_isToken, hf.child?, hf.child?, hf.child?, hf.listedExports]
  cases hexport : statement.kind == .exportStatement with
  | false =>
    simp only [hexport] at hasked
    simp only [bne, hexport, Bool.not_false, if_true]
    exact { h with defs := h.defs.declare hf statement hasked }
  | true =>
    simp only [hexport, if_true] at hasked
    simp only [bne, hexport, Bool.not_true, Bool.false_eq_true, if_false]
    cases hdeclaration : statement.child? .declaration with
    | some declaration =>
      simp only [hdeclaration] at hasked
      simp only [Option.map_some, declare_snd, declaredIn_relocated hf]
      refine h.append_names (h.defs.declare hf statement hasked) fun e he => ?_
      obtain ⟨name, -, rfl⟩ := List.mem_map.mp he
      rfl
    | none =>
      cases hvalue : statement.child? .value with
      | none =>
        simp only [Option.map_none, Option.isSome_map]
        split
        · exact h
        · exact h.append_names h.defs fun e he => anonymous_of_mem_listedExports he
      | some value =>
        simp only [hdeclaration, hvalue] at hasked
        simp only [Option.map_none, Option.map_some, hf.unwrap, hf.kind, hf.text]
        split
        · exact h.append_names h.defs fun e he => by
            rw [List.mem_singleton.mp he]
        · rename_i hwrapped
          rw [if_neg hwrapped] at hasked
          have hsame := resolve_relocated hf (n := value) fun name hname =>
            h.defs.get? name (hasked name (Option.mem_toList.mpr hname))
          rw [hsame, hf.wrappedName?]
          refine ⟨h.defs, by rw [h.exports, List.map_append]; rfl, fun e he d hd => ?_⟩
          rcases List.mem_append.mp he with he | he
          · exact h.ofFunction e he d hd
          · rw [List.mem_singleton.mp he] at hd
            exact Option.some.inj hd ▸ h.defs.ofFunction_resolve value statement _

/-- One run meets a function declaration, under a name that is not in `A`. -/
theorem Surface.Agrees.add_left {s' s : Surface} (h : Surface.Agrees f A s' s) {fn : Node}
    (hfn : isHoisted fn = true) (hA : ∀ name, functionName? fn = some name → name ∉ A) :
    Surface.Agrees f A s' (s.add fn) := by
  rw [add_of_isHoisted hfn]
  cases hname : functionName? fn with
  | none => exact h
  | some name =>
    refine ⟨⟨fun k hk => ?_, fun k d hd => ?_⟩, h.exports, h.ofFunction⟩
    · rw [Option.map_some, Option.getD_some, Table.get?_put,
        if_neg fun hsame : k = name => hA name hname (hsame ▸ hk), h.defs.get? k hk]
    · rw [Option.map_some, Option.getD_some, Table.get?_put] at hd
      split at hd
      · rw [← Option.some.inj hd]
        intro fn' hfn'
        obtain rfl := Option.some.inj hfn'
        rcases kind_of_isHoisted hfn with hkind | hkind <;> rw [hkind] <;> rfl
      · exact h.defs.ofFunction k d hd

/-- The other run meets a function declaration, under a name that is not in `A`. -/
theorem Surface.Agrees.add_right {s' s : Surface} (h : Surface.Agrees f A s' s) {fn : Node}
    (hfn : isHoisted fn = true) (hA : ∀ name, functionName? fn = some name → name ∉ A) :
    Surface.Agrees f A (s'.add fn) s := by
  rw [add_of_isHoisted hfn]
  cases hname : functionName? fn with
  | none => exact h
  | some name =>
    refine ⟨⟨fun k hk => ?_, h.defs.ofFunction⟩, h.exports, h.ofFunction⟩
    rw [Option.map_some, Option.getD_some, Table.get?_put,
      if_neg fun hsame : k = name => hA name hname (hsame ▸ hk), h.defs.get? k hk]

/-! ### All statements -/

/-- How two runs meet the statements: what is no function declaration at the same time, function
declarations one run at a time. -/
inductive Interleaved (f : Node → Node) : List Node → List Node → Prop
  | nil : Interleaved f [] []
  | left {fn : Node} {rest rest' : List Node} (hfn : isHoisted fn = true)
      (h : Interleaved f rest rest') : Interleaved f (fn :: rest) rest'
  | right {fn : Node} {rest rest' : List Node} (hfn : isHoisted fn = true)
      (h : Interleaved f rest rest') : Interleaved f rest (fn :: rest')
  | both {statement : Node} {rest rest' : List Node} (hother : isHoisted statement = false)
      (h : Interleaved f rest rest') : Interleaved f (statement :: rest) (f statement :: rest')

theorem interleaved_of_others {ss ss' : List Node}
    (h : ss'.filter (fun s => !isHoisted s) = (ss.filter fun s => !isHoisted s).map f) :
    Interleaved f ss ss' := by
  induction ss generalizing ss' with
  | nil =>
    induction ss' with
    | nil => exact .nil
    | cons s' rest' ih' =>
      cases hs' : isHoisted s' with
      | true => exact .right hs' (ih' (by simpa [hs'] using h))
      | false => simp [hs'] at h
  | cons s rest ih =>
    cases hs : isHoisted s with
    | true => exact .left hs (ih (by simpa [hs] using h))
    | false =>
      rw [List.filter_cons_of_pos (by rw [hs]; rfl), List.map_cons] at h
      induction ss' with
      | nil => cases h
      | cons s' rest' ih' =>
        cases hs' : isHoisted s' with
        | true => exact .right hs' (ih' (by simpa [hs'] using h))
        | false =>
          rw [List.filter_cons_of_pos (by rw [hs']; rfl), List.cons.injEq] at h
          rw [h.1]
          exact .both hs (ih h.2)

namespace Rearranged

variable {all all' : List Node}

theorem relocated_mem (h : Rearranged f all all') {fn : Node} (hfn : fn ∈ all)
    (hhoisted : isHoisted fn = true) : f fn ∈ all' := by
  have hmem : f fn ∈ (all.filter isHoisted).map f :=
    List.mem_map_of_mem (List.mem_filter.mpr ⟨hfn, hhoisted⟩)
  exact (List.mem_filter.mp (h.hoisted.mem_iff.mpr hmem)).1

/-- What is no function declaration was there before the move. -/
theorem exists_other (hf : Relocation f) (h : Rearranged f all all') {s' : Node} (hs' : s' ∈ all')
    (hother : isHoisted s' = false) : ∃ s ∈ all, isHoisted s = false ∧ s' = f s := by
  have hmem : s' ∈ all'.filter fun s => !isHoisted s :=
    List.mem_filter.mpr ⟨hs', by rw [hother]; rfl⟩
  rw [h.others] at hmem
  obtain ⟨s, hs, rfl⟩ := List.mem_map.mp hmem
  rw [isHoisted_relocated hf] at hother
  exact ⟨s, (List.mem_filter.mp hs).1, hother, rfl⟩

theorem functionNames_perm (hf : Relocation f) (h : Rearranged f all all') :
    (functionNames all').Perm (functionNames all) := by
  have hfilter (l : List Node) : functionNames l = (l.filter isHoisted).filterMap functionName? := by
    rw [List.filterMap_filter]
    refine List.filterMap_congr fun s _ => ?_
    cases hs : isHoisted s <;> simp [functionName?, hs]
  have hperm := h.hoisted.filterMap functionName?
  rw [List.filterMap_map] at hperm
  rw [hfilter, hfilter all]
  refine hperm.trans (List.Perm.of_eq ?_)
  exact List.filterMap_congr fun s _ => functionName?_relocated hf s

theorem declaredOnce (hf : Relocation f) (h : Rearranged f all all') (honce : DeclaredOnce all) :
    DeclaredOnce all' where
  functions := (h.functionNames_perm hf).nodup_iff.mpr honce.functions
  others s' hs' hother' name hname hfunction := by
    obtain ⟨s, hs, hother, rfl⟩ := h.exists_other hf hs' hother'
    rw [declared_relocated hf] at hname
    exact honce.others s hs hother name hname ((h.functionNames_perm hf).mem_iff.mp hfunction)

/-- A function that is still to come in both runs, or in none, means the same in both. -/
theorem get?_eq (hf : Relocation f) (h : Rearranged f all all') {rest rest' : List Node}
    {s s' : Surface} (hleft : Partway all rest s) (hright : Partway all' rest' s') {name : String}
    (hname : name ∈ functionNames all)
    (hlate : name ∈ functionNames rest' ↔ name ∈ functionNames rest) :
    s'.defs.get? name = (s.defs.get? name).map (Definition.relocated f) := by
  obtain ⟨fn, hfn, hsame⟩ := mem_functionNames.mp hname
  have hmem := h.relocated_mem hfn (isHoisted_of_functionName? hsame)
  rw [hleft.get? fn hfn name hsame,
    hright.get? (f fn) hmem name ((functionName?_relocated hf fn).trans hsame)]
  simp only [hlate]
  split <;> rfl

/-- The runs agree on all names but those of the functions, as long as no statement finds a function
in one of them that it misses in the other. -/
theorem agrees_foldl (hf : Relocation f) (h : Rearranged f all all') (honce : DeclaredOnce all)
    {rest rest' : List Node} (hi : Interleaved f rest rest') {s s' : Surface}
    (hleft : Partway all rest s) (hright : Partway all' rest' s') (hlate : late rest' = late rest)
    (hs : Surface.Agrees f {name | name ∉ functionNames all} s' s) :
    Surface.Agrees f {name | name ∉ functionNames all} (rest'.foldl Surface.add s')
      (rest.foldl Surface.add s) := by
  have honce' := h.declaredOnce hf honce
  induction hi generalizing s s' with
  | nil => exact hs
  | @left fn rest rest' hfn _ ih =>
    rw [late, if_pos hfn] at hlate
    refine ih (hleft.add honce) hright hlate (hs.add_left hfn fun name hname hnot => hnot ?_)
    exact mem_functionNames.mpr ⟨fn, hleft.suffix.subset List.mem_cons_self, hname⟩
  | @right fn rest rest' hfn _ ih =>
    rw [late, if_pos hfn] at hlate
    refine ih hleft (hright.add honce') hlate (hs.add_right hfn fun name hname hnot => hnot ?_)
    rw [← (h.functionNames_perm hf).mem_iff]
    exact mem_functionNames.mpr ⟨fn, hright.suffix.subset List.mem_cons_self, hname⟩
  | @both statement rest rest' hother _ ih =>
    rw [late, late, isHoisted_relocated hf, asked_relocated hf, if_neg (by simp [hother]),
      if_neg (by simp [hother]), List.cons.injEq] at hlate
    have hbehind (name : String) (hname : name ∈ asked statement) :
        name ∈ functionNames (f statement :: rest') ↔ name ∈ functionNames (statement :: rest) := by
      have hmem : name ∈ (asked statement).filter (functionNames rest').contains ↔
          name ∈ (asked statement).filter (functionNames rest).contains := by rw [hlate.1]
      rw [functionNames_cons, functionNames_cons, functionName?_relocated hf, functionName?,
        if_neg (by simp [hother])]
      simpa [List.mem_filter, hname] using hmem
    have hmore : Surface.Agrees f {name | name ∈ asked statement ∨ name ∉ functionNames all} s' s :=
      hs.extend fun name hname => by
        by_cases hfunction : name ∈ functionNames all
        · exact h.get?_eq hf hleft hright hfunction
            (hbehind name (hname.resolve_right fun hnot => hnot hfunction))
        · exact hs.defs.get? name hfunction
    have hstep := hmore.add hf fun name hname => .inl hname
    exact ih (hleft.add honce) (hright.add honce') hlate.2
      (hstep.extend fun name hname => hstep.defs.get? name (.inr hname))

/-- At the end all functions are known. -/
theorem agrees_surface (hf : Relocation f) {root root' : Node}
    (h : Rearranged f root.parts root'.parts) (honce : DeclaredOnce root.parts)
    (hlate : late root'.parts = late root.parts) :
    Surface.Agrees f Set.univ (surface root') (surface root) := by
  have hempty : Surface.Agrees f {name | name ∉ functionNames root.parts} ⟨Table.empty, []⟩
      ⟨Table.empty, []⟩ :=
    ⟨⟨fun _ _ => rfl, fun _ _ hd => by cases hd⟩, rfl, fun _ he => absurd he List.not_mem_nil⟩
  have hend := h.agrees_foldl hf honce (interleaved_of_others h.others) (partway_empty root.parts)
    (partway_empty root'.parts) hlate hempty
  refine hend.extend fun name _ => ?_
  by_cases hfunction : name ∈ functionNames root.parts
  · exact h.get?_eq hf (Partway.of_all honce) (Partway.of_all (h.declaredOnce hf honce)) hfunction
      Iff.rfl
  · exact hend.defs.get? name hfunction

end Rearranged

/-! ## The component -/

/-- A candidate at its new place. -/
def Candidate.relocated (f : Node → Node) (c : Candidate) : Candidate :=
  { c with callable := f c.callable, statement := f c.statement }

theorem definition_relocated {s' s : Surface} (h : Surface.Agrees f Set.univ s' s) {e : Export}
    (he : e ∈ s.exports) :
    ((e.relocated f).anonymous.orElse fun _ => s'.defs.get? ((e.relocated f).binding.getD "")) =
        (e.anonymous.orElse fun _ => s.defs.get? (e.binding.getD "")).map
          (Definition.relocated f) ∧
      ∀ d, (e.anonymous.orElse fun _ => s.defs.get? (e.binding.getD "")) = some d →
        d.OfFunction := by
  cases hown : e.anonymous with
  | some d =>
    refine ⟨by simp [Export.relocated, hown], fun d' hd' => ?_⟩
    obtain rfl := Option.some.inj hd'
    exact h.ofFunction e he d hown
  | none =>
    refine ⟨?_, fun d hd => h.defs.ofFunction _ d hd⟩
    simp [Export.relocated, hown, h.defs.get? _ trivial]

/-- The step: one export.  Functions begin at the same place after the move if they did before. -/
theorem addCandidate_relocated (hf : Relocation f) {s' s : Surface}
    (h : Surface.Agrees f Set.univ s' s) {e : Export} (he : e ∈ s.exports) {found : List Candidate}
    (hfound : ∀ c ∈ found, c.callable.kind.isFunction = true) :
    addCandidate s'.defs (found.map (Candidate.relocated f)) (e.relocated f) =
        (addCandidate s.defs found e).map (Candidate.relocated f) ∧
      ∀ c ∈ addCandidate s.defs found e, c.callable.kind.isFunction = true := by
  obtain ⟨hsame, hfunction⟩ := definition_relocated h he
  unfold addCandidate
  rw [hsame]
  cases hd : e.anonymous.orElse fun _ => s.defs.get? (e.binding.getD "") with
  | none => exact ⟨rfl, hfound⟩
  | some d =>
    simp only [Option.map_some, Definition.relocated]
    cases hfn : d.callable with
    | none => exact ⟨rfl, hfound⟩
    | some fn =>
      have hkind := hfunction d hd fn hfn
      have hstart (c : Candidate) (hc : c ∈ found) :
          ((f c.callable).start == (f fn).start) = (c.callable.start == fn.start) := by
        rw [Bool.eq_iff_iff, beq_iff_eq, beq_iff_eq]
        exact hf.apart c.callable fn (hfound c hc) hkind
      have hany : (found.map (Candidate.relocated f)).any (·.callable.start == (f fn).start) =
          found.any (·.callable.start == fn.start) := by
        rw [List.any_map, Bool.eq_iff_iff, List.any_eq_true, List.any_eq_true]
        refine exists_congr fun c => and_congr_right fun hc => ?_
        rw [← hstart c hc]
        rfl
      simp only [Option.map_some, hf.isComponent, hany]
      split
      · exact ⟨rfl, hfound⟩
      split
      · refine ⟨?_, fun c hc => ?_⟩
        · rw [List.map_map, List.map_map]
          refine List.map_congr_left fun c hc => ?_
          simp only [Function.comp_apply, Candidate.relocated, hstart c hc]
          split <;> rfl
        · obtain ⟨c', hc', rfl⟩ := List.mem_map.mp hc
          split <;> exact hfound c' hc'
      · refine ⟨by rw [List.map_append]; rfl, List.forall_mem_append.mpr ⟨hfound, ?_⟩⟩
        exact List.forall_mem_singleton.mpr hkind

theorem candidates_relocated (hf : Relocation f) {root root' : Node}
    (h : Surface.Agrees f Set.univ (surface root') (surface root)) :
    candidates root' = (candidates root).map (Candidate.relocated f) := by
  have hall (l : List Export) (hl : ∀ e ∈ l, e ∈ (surface root).exports) (found : List Candidate)
      (hfound : ∀ c ∈ found, c.callable.kind.isFunction = true) :
      (l.map (Export.relocated f)).foldl (addCandidate (surface root').defs)
          (found.map (Candidate.relocated f)) =
        (l.foldl (addCandidate (surface root).defs) found).map (Candidate.relocated f) := by
    induction l generalizing found with
    | nil => rfl
    | cons e rest ih =>
      obtain ⟨hsame, hfunction⟩ := addCandidate_relocated hf h (hl e List.mem_cons_self) hfound
      rw [List.map_cons, List.foldl_cons, List.foldl_cons, hsame]
      exact ih (fun m hm => hl m (List.mem_cons_of_mem _ hm)) _ hfunction
  unfold candidates
  simp only [h.exports]
  exact hall _ (fun _ he => he) [] fun c hc => absurd hc List.not_mem_nil

/-- A site at its new place. -/
def relocated (f : Node → Node) (s : Site) : Site :=
  { s with callable := f s.callable, statement := f s.statement }

/-- **The component is found at its new place**, or is missed for the same reason, when function
declarations are moved, if every statement finds the same of the functions that it asks for behind
it. -/
theorem locate_rearranged (hf : Relocation f) {root root' : Node}
    (h : Rearranged f root.parts root'.parts) (honce : DeclaredOnce root.parts)
    (hlate : late root'.parts = late root.parts) (path : String) :
    locate root' path = (locate root path).map (relocated f) := by
  have hsame := candidates_relocated hf (h.agrees_surface hf honce hlate)
  unfold locate
  rw [hsame]
  rcases candidates root with _ | ⟨c, _ | ⟨c', rest⟩⟩
  · rfl
  · simp only [List.map_cons, List.map_nil, Except.map, relocated, Candidate.relocated, hf.child?,
      hf.map_text]
  · simp only [List.map_cons, Except.map, List.length_cons, List.length_map, List.map_map,
      Function.comp_def, Candidate.relocated]

/-- What a component is called and how it is exported, and what is written in it. -/
structure Told where
  name : String
  binding : Option String
  wrapper : Option String
  exportKind : ExportKind
  text : String
deriving DecidableEq, Repr

/-- What is told about a component apart from its place. -/
def told (s : Site) : Told := ⟨s.name, s.binding, s.wrapper, s.exportKind, s.callable.text⟩

theorem told_relocated (hf : Relocation f) (s : Site) : (s.relocated f).told = s.told := by
  rw [told, relocated, hf.text]
  rfl

/-- Two texts that are read as trees with a decidable property. -/
theorem exists_parses (text text' path : String) {P : Source → Source → Prop}
    [∀ s, DecidablePred (P s)]
    (h : ((Source.parse text path).toOption.any fun s =>
      (Source.parse text' path).toOption.any fun s' => decide (P s s')) = true) :
    ∃ s s', Source.parse text path = .ok s ∧ Source.parse text' path = .ok s' ∧ P s s' := by
  obtain ⟨s, hs, hrest⟩ := exists_parse text path
    (P := fun s => ((Source.parse text' path).toOption.any fun s' => decide (P s s')) = true)
    (by simpa only [Bool.decide_eq_true] using h)
  obtain ⟨s', hs', hP⟩ := exists_parse text' path hrest
  exact ⟨s, s', hs, hs', hP⟩

/-- **Moving function declarations does not change what is located**, if every statement finds the
same of the functions that it asks for behind it: name, wrapper, kind of export and text of the
component are the same, or it is missed for the same reason. -/
theorem told_rearranged (hf : Relocation f) {root root' : Node}
    (h : Rearranged f root.parts root'.parts) (honce : DeclaredOnce root.parts)
    (hlate : late root'.parts = late root.parts) (path : String) :
    (locate root' path).map told = (locate root path).map told := by
  rw [locate_rearranged hf h honce hlate]
  cases locate root path with
  | error e => rfl
  | ok site => exact congrArg Except.ok (told_relocated hf site)

/-- A component whose function declaration stands in front of its exports. -/
def functionFirst : String :=
  "function A() \x7b return <p/>; \x7d\nexport \x7b A as B \x7d;\nexport default memo(A);\n"

/-- The same component with the function declaration behind the list of exports. -/
def functionSecond : String :=
  "export \x7b A as B \x7d;\nfunction A() \x7b return <p/>; \x7d\nexport default memo(A);\n"

/-- The list is looked up at the end, and the wrapped export still stands behind the function. -/
theorem function_behind_list :
    ∃ s s', Source.parse functionFirst "A.jsx" = .ok s ∧
      Source.parse functionSecond "A.jsx" = .ok s' ∧
      Rearranged (relocate (exchange 0 30 49) (exchange 1 2 3)) s.root.parts s'.root.parts ∧
      DeclaredOnce s.root.parts ∧ late s'.root.parts = late s.root.parts ∧
      (locate s'.root "A.jsx").map told = (locate s.root "A.jsx").map told ∧
      (locate s.root "A.jsx").toOption.map told =
        some ⟨"A", some "A", none, .default, "function A() \x7b return <p/>; \x7d"⟩ := by
  obtain ⟨s, s', hs, hs', hmoved, honce, hlate, htold⟩ :=
    exists_parses functionFirst functionSecond "A.jsx"
      (P := fun s s' =>
        Rearranged (relocate (exchange 0 30 49) (exchange 1 2 3)) s.root.parts s'.root.parts ∧
        DeclaredOnce s.root.parts ∧ late s'.root.parts = late s.root.parts ∧
        (locate s.root "A.jsx").toOption.map told =
          some ⟨"A", some "A", none, .default, "function A() \x7b return <p/>; \x7d"⟩)
      (by decide +kernel)
  have hf := relocation_relocate (exchange_injective (a := 0) (b := 30) (c := 49) (by decide)
    (by decide)) (exchange 1 2 3)
  exact ⟨s, s', hs, hs', hmoved, honce, hlate, told_rearranged hf hmoved honce hlate "A.jsx", htold⟩

/-- A component whose function declaration stands behind the export that wraps it. -/
def functionLast : String := "export default memo(A);\nfunction A() \x7b return <p/>; \x7d\n"

/-- The same component with the function declaration in front. -/
def functionAhead : String := "function A() \x7b return <p/>; \x7d\nexport default memo(A);\n"

/-- The component is found in one order and missed in the other. -/
theorem wrapped_function_missed :
    ∃ s s', Source.parse functionAhead "A.jsx" = .ok s ∧
      Source.parse functionLast "A.jsx" = .ok s' ∧
      Relocation (relocate (exchange 0 30 54) (exchange 1 2 3)) ∧
      Rearranged (relocate (exchange 0 30 54) (exchange 1 2 3)) s.root.parts s'.root.parts ∧
      DeclaredOnce s.root.parts ∧
      (locate s.root "A.jsx").toOption.map told =
        some ⟨"A", some "A", some "memo", .default, "function A() \x7b return <p/>; \x7d"⟩ ∧
      ∀ site, locate s'.root "A.jsx" ≠ .ok site := by
  obtain ⟨s, s', hs, hs', hmoved, honce, htold, hmissed⟩ :=
    exists_parses functionAhead functionLast "A.jsx"
      (P := fun s s' =>
        Rearranged (relocate (exchange 0 30 54) (exchange 1 2 3)) s.root.parts s'.root.parts ∧
        DeclaredOnce s.root.parts ∧
        (locate s.root "A.jsx").toOption.map told =
          some ⟨"A", some "A", some "memo", .default, "function A() \x7b return <p/>; \x7d"⟩ ∧
        (locate s'.root "A.jsx").toOption.isNone = true)
      (by decide +kernel)
  have hf := relocation_relocate (exchange_injective (a := 0) (b := 30) (c := 54) (by decide)
    (by decide)) (exchange 1 2 3)
  refine ⟨s, s', hs, hs', hf, hmoved, honce, htold, fun site hsite => ?_⟩
  rw [hsite] at hmissed
  cases hmissed

/-- In a module whose exports and variables only name functions, all function declarations may be
moved. -/
theorem told_rearranged_of_unasked (hf : Relocation f) {root root' : Node}
    (h : Rearranged f root.parts root'.parts) (honce : DeclaredOnce root.parts)
    (hunasked : ∀ s ∈ root.parts, isHoisted s = false →
      ∀ name ∈ asked s, name ∉ functionNames root.parts) (path : String) :
    (locate root' path).map told = (locate root path).map told := by
  refine told_rearranged hf h honce ?_ path
  rw [late_of_unasked hunasked, late_of_unasked, h.others, List.map_map]
  · rfl
  · intro s' hs' hother' name hname hfunction
    obtain ⟨s, hs, hother, rfl⟩ := h.exists_other hf hs' hother'
    rw [asked_relocated hf] at hname
    exact hunasked s hs hother name hname ((h.functionNames_perm hf).mem_iff.mp hfunction)

end Site
end Transplant
