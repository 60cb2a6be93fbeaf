import Transplant.Proofs.Comments.Site
import Transplant.Proofs.Grammar.Plain

/-!
# Names of components

A component has its name from its export, from its function, or from its file.  An exported name
that is found to be a component has been declared by a function or for a value, and both are
declared by identifiers.  So in a plain tree no slash stands in the name of the component, and files
that are called by it stay where they are put.

* `Names.slash_notMem_ofPath`: names made from files
* `Site.Callable`, `Site.Defined`: functions and definitions of a plain tree
* `Site.slash_notMem_name`: the name of a component
-/

namespace Transplant

open Node

namespace Names

theorem isWordChar_of_mem_pieces {current l : List Char}
    (hcurrent : ∀ c ∈ current, isWordChar c = true) {piece : List Char}
    (h : piece ∈ pieces current l) : ∀ c ∈ piece, isWordChar c = true := by
  have hnone : ∀ c ∈ ([] : List Char), isWordChar c = true := fun c hc => by cases hc
  induction l generalizing current with
  | nil =>
    rw [pieces] at h
    split at h
    · cases h
    · rw [List.mem_singleton.mp h]
      exact fun c hc => hcurrent c (List.mem_reverse.mp hc)
  | cons c rest ih =>
    rw [pieces] at h
    split at h
    · rename_i hc
      refine ih (fun a ha => ?_) h
      rcases List.mem_cons.mp ha with rfl | ha
      · exact hc
      · exact hcurrent a ha
    · split at h
      · exact ih hnone h
      · rcases List.mem_cons.mp h with rfl | h
        · exact fun c hc => hcurrent c (List.mem_reverse.mp hc)
        · exact ih hnone h

theorem toUpper_ne_slash {c : Char} (h : isWordChar c = true) : c.toUpper ≠ '/' := by
  intro hslash
  unfold Char.toUpper at hslash
  split at hslash
  · rename_i hlow
    have hval : (c.val + ('A'.val - 'a'.val)).toNat = 47 := congrArg (·.val.toNat) hslash
    have hshift : ('A'.val - 'a'.val).toNat = 4294967264 := by decide
    have hfirst : 97 ≤ c.val.toNat := UInt32.le_iff_toNat_le.mp hlow.1
    have hlast : c.val.toNat ≤ 122 := UInt32.le_iff_toNat_le.mp hlow.2
    rw [UInt32.toNat_add, hshift] at hval
    omega
  · rw [hslash] at h
    exact absurd h (by decide)

/-- A name made from the name of a file consists of letters and digits. -/
theorem slash_notMem_pascalCase (stem : String) : '/' ∉ (pascalCase stem).toList := by
  unfold pascalCase
  dsimp only
  split
  · decide
  · intro hmem
    rw [String.toList_ofList] at hmem
    obtain ⟨piece, hpiece, hslash⟩ := List.mem_flatMap.mp hmem
    have hchars := isWordChar_of_mem_pieces (fun c hc => by cases hc) hpiece
    cases piece with
    | nil => cases hslash
    | cons c rest =>
      rcases List.mem_cons.mp hslash with hslash | hslash
      · exact toUpper_ne_slash (hchars c List.mem_cons_self) hslash.symm
      · exact absurd (hchars _ (List.mem_cons_of_mem _ hslash)) (by decide)

theorem slash_notMem_ofPath (path : String) : '/' ∉ (ofPath path).toList := by
  unfold ofPath
  exact slash_notMem_pascalCase _

end Names

namespace Site

/-! ## Functions and what they are called -/

/-- A function of a plain tree. -/
structure Callable (fn : Node) : Prop where
  isFunction : fn.kind.isFunction = true
  clean : fn.Clean

theorem Callable.slash_notMem {fn name : Node} (h : Callable fn)
    (hname : fn.child? .name = some name) : '/' ∉ name.text.toList := by
  have hmem := List.mem_of_find?_eq_some hname
  have hrole : name.role = some .name := by simpa using List.find?_some hname
  exact (h.clean.of_mem hmem).plain.identifier (h.clean.plain.called h.isFunction name hmem hrole)

/-- Whether a definition under a name is one of a plain tree: if it has a function, the name has no
slash. -/
def Definition.Plain (name : String) (d : Definition) : Prop :=
  ∀ fn, d.callable = some fn → Callable fn ∧ '/' ∉ name.toList

/-- The definitions of a plain tree. -/
def Defined (defs : Definitions) : Prop := ∀ name d, defs.get? name = some d → d.Plain name

theorem defined_empty : Defined Table.empty := fun _ _ h => by cases h

theorem Defined.put {defs : Definitions} (h : Defined defs) {name : String} {d : Definition}
    (hd : d.Plain name) : Defined (defs.put name d) := by
  intro k e hk
  rw [Table.get?_put] at hk
  split at hk
  · rename_i hsame
    rw [hsame, ← Option.some.inj hk]
    exact hd
  · exact h k e hk

theorem clean_of_child? {n c : Node} {r : Role} (hn : n.Clean) (h : n.child? r = some c) :
    c.Clean :=
  hn.of_mem (List.mem_of_find?_eq_some h)

theorem clean_of_mem_parts {n c : Node} (hn : n.Clean) (h : c ∈ n.parts) : c.Clean :=
  hn.of_walk (mem_walk_of_below (mem_below_of_mem_parts h))

theorem clean_unwrap {n : Node} (h : n.Clean) : n.unwrap.Clean := by
  induction n using induct_below with
  | _ n ih =>
    rw [unwrap_eq]
    split
    · cases hfirst : n.namedChildren.head? with
      | none => exact h
      | some c =>
        have hc := mem_below_of_head? hfirst
        exact ih c hc (h.of_walk (mem_walk_of_below hc))
    · exact h

/-- A value stands for a function that is part of it, or for one that is defined. -/
theorem mem_walk_of_resolve {defs : Definitions} {n fn : Node} (h : (resolve defs n).1 = some fn) :
    (fn.kind.isFunction = true ∧ fn ∈ n.walk) ∨
      ∃ name d, defs.get? name = some d ∧ d.callable = some fn := by
  induction n using induct_below with
  | _ n ih =>
    have hpart : ∀ {c : Node}, c ∈ walkAll n.children → (resolve defs c).1 = some fn →
        (fn.kind.isFunction = true ∧ fn ∈ n.walk) ∨
          ∃ name d, defs.get? name = some d ∧ d.callable = some fn := fun hc hfn =>
      (ih _ hc hfn).imp_left fun h => ⟨h.1, walk_trans (mem_walk_of_below hc) h.2⟩
    rw [resolve_eq] at h
    split at h
    · cases hfirst : n.namedChildren.head? with
      | none => simp [hfirst] at h
      | some c =>
        rw [hfirst] at h
        exact hpart (mem_below_of_head? hfirst) h
    split at h
    · rename_i hfunction
      obtain rfl := Option.some.inj h
      exact .inl ⟨hfunction, n.mem_walk_self⟩
    split at h
    · split at h
      · rename_i d hd
        exact .inr ⟨_, d, hd, h⟩
      · cases h
    split at h
    · split at h
      · split at h
        · split at h
          · rename_i inner hinner
            obtain ⟨a, ha, hinner⟩ := Option.bind_eq_some_iff.mp hinner
            obtain ⟨c, hc, rfl⟩ := Option.map_eq_some_iff.mp hinner
            rw [Resolved.fst_within] at h
            exact hpart (mem_below_of_firstPart? ha hc) h
          · cases h
        · cases h
      · cases h
    · cases h

/-- A value of a plain tree stands for a function of it, or for one that is defined. -/
theorem callable_resolve {defs : Definitions} (hdefs : Defined defs) {n : Node} (h : n.Clean)
    {fn : Node} (hfn : (resolve defs n).1 = some fn) : Callable fn := by
  rcases mem_walk_of_resolve hfn with ⟨hfunction, hwalk⟩ | ⟨name, d, hd, hcallable⟩
  · exact ⟨hfunction, h.of_walk hwalk⟩
  · exact (hdefs name d hd fn hcallable).1

/-- The name inside the wrappers of a value is an identifier. -/
theorem slash_notMem_wrappedName? {n : Node} (h : n.Clean) {name : String}
    (hname : wrappedName? n = some name) : '/' ∉ name.toList := by
  induction n using induct_below with
  | _ n ih =>
    have hpart : ∀ {c : Node}, c ∈ walkAll n.children → wrappedName? c = some name →
        '/' ∉ name.toList := fun hc => ih _ hc (h.of_walk (mem_walk_of_below hc))
    rw [wrappedName?_eq] at hname
    split at hname
    · obtain ⟨c, hc, hname⟩ := Option.bind_eq_some_iff.mp hname
      exact hpart (mem_below_of_head? hc) hname
    split at hname
    · rename_i hidentifier
      exact Option.some.inj hname ▸ h.plain.identifier (beq_iff_eq.mp hidentifier)
    split at hname
    · obtain ⟨a, ha, hname⟩ := Option.bind_eq_some_iff.mp hname
      obtain ⟨c, hc, hname⟩ := Option.bind_eq_some_iff.mp hname
      exact hpart (mem_below_of_firstPart? ha hc) hname
    · cases hname

/-! ## Definitions and exports -/

theorem defined_declareVariable {holder declarator : Node} {acc : Definitions × List String}
    (hdefs : Defined acc.1) (h : declarator.Clean) :
    Defined (declareVariable holder acc declarator).1 := by
  unfold declareVariable
  split
  · exact hdefs
  split
  · exact hdefs
  · rename_i name hname
    split
    · exact hdefs
    · rename_i hkind
      refine hdefs.put fun fn hfn => ⟨?_, ?_⟩
      · dsimp only at hfn
        split at hfn
        · rename_i value hvalue
          exact callable_resolve hdefs (clean_of_child? h hvalue) hfn
        · cases hfn
      · exact (clean_of_child? h hname).plain.identifier (by simpa using hkind)

theorem defined_declare {defs : Definitions} (hdefs : Defined defs) {statement holder : Node}
    (h : statement.Clean) : Defined (declare defs statement holder).1 := by
  have hvariables : Defined (statement.parts.foldl (declareVariable holder) (defs, [])).1 :=
    List.foldlRecOn (motive := fun acc : Definitions × List String => Defined acc.1) _ _ hdefs
      fun _ hacc _ hc => defined_declareVariable hacc (clean_of_mem_parts h hc)
  have hfunction : statement.kind.isFunction = true → ∀ name, statement.child? .name = some name →
      Defined (defs.put name.text ⟨some statement, holder, none⟩) := by
    intro hkind name hname
    refine hdefs.put fun fn hfn => ?_
    obtain rfl := Option.some.inj hfn
    exact ⟨⟨hkind, h⟩, Callable.slash_notMem ⟨hkind, h⟩ hname⟩
  unfold declare
  split
  case h_1 hkind | h_2 hkind =>
    split
    · rename_i name hname
      exact hfunction (by rw [hkind]; rfl) name hname
    · exact hdefs
  case h_3 =>
    split
    · exact hdefs.put fun fn hfn => by cases hfn
    · exact hdefs
  case h_4 | h_5 => exact hvariables
  case h_6 => exact hdefs

/-- An export of a plain tree: its own definition, if it has one, comes with a name without
slashes. -/
structure Export.Plain (e : Export) : Prop where
  definition : ∀ d, e.anonymous = some d → ∀ fn, d.callable = some fn → Callable fn
  binding : e.anonymous.isSome = true → ∀ name, e.binding = some name → '/' ∉ name.toList

theorem Export.plain_of_name {name : Option String} (kind : ExportKind) :
    Export.Plain ⟨name, kind, none⟩ where
  definition _ h := by cases h
  binding h := by cases h

/-- What the statements of a plain tree define and export. -/
structure Surface.Plain (s : Surface) : Prop where
  defs : Defined s.defs
  exports : ∀ e ∈ s.exports, e.Plain

/-- The step: one more statement. -/
theorem Surface.Plain.add {s : Surface} (hs : s.Plain) {statement : Node} (h : statement.Clean) :
    (s.add statement).Plain := by
  have hmore : ∀ {defs : Definitions} {l : List Export}, Defined defs → (∀ e ∈ l, e.Plain) →
      Surface.Plain ⟨defs, s.exports ++ l⟩ := fun hdefs hl =>
    ⟨hdefs, fun e he => (List.mem_append.mp he).elim (hs.exports e) (hl e)⟩
  unfold Surface.add
  split
  · exact ⟨defined_declare hs.defs h, hs.exports⟩
  · dsimp only
    split
    · rename_i declaration _ hdeclaration
      refine hmore (defined_declare hs.defs (clean_of_child? h hdeclaration)) fun e he => ?_
      obtain ⟨name, -, rfl⟩ := List.mem_map.mp he
      exact Export.plain_of_name _
    · rename_i value _ hvalue
      have hclean := clean_of_child? h hvalue
      split
      · exact hmore hs.defs (List.forall_mem_singleton.mpr (Export.plain_of_name _))
      · refine hmore hs.defs (List.forall_mem_singleton.mpr ⟨fun d hd fn hfn => ?_, ?_⟩)
        · obtain rfl := Option.some.inj hd
          exact callable_resolve hs.defs hclean hfn
        · exact fun _ name hname => slash_notMem_wrappedName? (clean_unwrap hclean) hname
    · split
      · exact hs
      · refine hmore hs.defs fun e he => ?_
        obtain ⟨spec, -, hspec⟩ := List.mem_filterMap.mp he
        obtain ⟨name, -, rfl⟩ := Option.map_eq_some_iff.mp hspec
        exact Export.plain_of_name _

theorem plain_surface {root : Node} (h : root.Clean) : (surface root).Plain :=
  List.foldlRecOn (motive := Surface.Plain) _ _ ⟨defined_empty, fun e he => by cases he⟩
    fun _ hs _ hc => hs.add (clean_of_mem_parts h hc)

/-! ## The component -/

/-- A candidate of a plain tree. -/
structure Candidate.Plain (c : Candidate) : Prop where
  callable : Callable c.callable
  binding : ∀ name, c.binding = some name → '/' ∉ name.toList

theorem plain_addCandidate {defs : Definitions} (hdefs : Defined defs) {found : List Candidate}
    (hfound : ∀ c ∈ found, c.Plain) {e : Export} (he : e.Plain) :
    ∀ c ∈ addCandidate defs found e, c.Plain := by
  unfold addCandidate
  split
  · exact hfound
  · rename_i d hd
    split
    · exact hfound
    · rename_i callable hcallable
      split
      · exact hfound
      split
      · intro c hc
        obtain ⟨c', hc', rfl⟩ := List.mem_map.mp hc
        split
        · exact ⟨(hfound c' hc').callable, (hfound c' hc').binding⟩
        · exact hfound c' hc'
      · refine List.forall_mem_append.mpr ⟨hfound, List.forall_mem_singleton.mpr ?_⟩
        cases hanonymous : e.anonymous with
        | some own =>
          rw [hanonymous] at hd
          obtain rfl := Option.some.inj hd
          exact ⟨he.definition _ hanonymous _ hcallable, he.binding (by rw [hanonymous]; rfl)⟩
        | none =>
          rw [hanonymous] at hd
          obtain ⟨hfn, hname⟩ := hdefs _ d hd _ hcallable
          refine ⟨hfn, fun name hbinding => ?_⟩
          rw [show e.binding = some name from hbinding] at hname
          exact hname

theorem plain_candidates {root : Node} (h : root.Clean) : ∀ c ∈ candidates root, c.Plain :=
  List.foldlRecOn (motive := fun found => ∀ c ∈ found, Candidate.Plain c) _ _
    (fun c hc => by cases hc) fun _ hfound e he =>
      plain_addCandidate (plain_surface h).defs hfound ((plain_surface h).exports e he)

/-- **No slash stands in the name of a component** that has been found in a plain tree. -/
theorem slash_notMem_name {root : Node} (h : root.Clean) {path : String} {site : Site}
    (hsite : locate root path = .ok site) : '/' ∉ site.name.toList := by
  unfold locate at hsite
  split at hsite
  · cases hsite
  · rename_i c hc
    have hplain : c.Plain := plain_candidates h c (hc ▸ List.mem_singleton_self c)
    rw [← Except.ok.inj hsite]
    dsimp only
    cases hbinding : c.binding with
    | some name => exact hplain.binding name hbinding
    | none =>
      cases hname : c.callable.child? .name with
      | some name => exact hplain.callable.slash_notMem hname
      | none =>
        rw [Option.map_none, Option.orElse_none, Option.getD_none]
        exact Names.slash_notMem_ofPath path
  · cases hsite

end Site
end Transplant
