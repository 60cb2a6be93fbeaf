import Transplant.Adapt.Basic
import Transplant.Proofs.Grammar.Layout
import Transplant.Proofs.Source.Edits

/-!
# Edits that are apart

Edits can be made together if none of them reaches into another one.  What a pass edits are places
in the nodes of a tree, and two nodes of a tree lie one behind the other or one below the other
(`Node.AllNested.pairwise_walk`).  In the first case their places are apart.  So all that is to be
seen is how the place of a node lies to the places of what is below it, and there is a reason for
each pass.

* Names that are replaced are leaves, and nothing is below a leaf.
* The name of an attribute has no attribute in it, so an attribute below another one is behind the
  name.
* The string that names a module is a leaf, and a child or an argument of its node.  What is below
  the node and names a module, too, is in another child or another argument.
* The header is one edit.

* `Edit.AllApart`, `Edit.Applicable`: edits that can be made together
* `Edit.exists_overlap_iff`: what it means for a source
* `Node.WellFormed.pairwise_places`: places of a tree that are apart
* `Identifiers.applicable_edits`, `TestAttributes.applicable_edits`,
  `Specifiers.applicable_edits`, `Header.applicable_edits`: the passes
-/

namespace Transplant

open Node

/-! ## Places that are apart -/

namespace Node

/-- Two nodes of which the one lies behind the other. -/
def Apart (m n : Node) : Prop := m.stop ≤ n.start ∨ n.stop ≤ m.start

variable {root n : Node}

/-- What is below a node is apart from a child that it is not below. -/
theorem WellFormed.apart_below (h : n.WellFormed) {p m : Node} (hp : p ∈ n.children)
    (hm : m ∈ walkAll n.children) (hnot : m ∉ p.walk) {x y : Node} (hx : x ∈ p.walk)
    (hy : y ∈ m.walk) : x.Apart y := by
  obtain ⟨d, hd, hmd⟩ := mem_walkAll.mp hm
  refine h.apart_of_children hp hd ?_ hx (walk_trans hmd hy)
  rintro rfl
  exact hnot hmd

/-- Only a leaf itself is in the tree of a leaf. -/
theorem eq_of_mem_walk_leaf {m p : Node} (hp : p.Formed) (hkind : p.kind ∈ leafKinds)
    (hm : m ∈ p.walk) : m = p := by
  rcases mem_walk_iff.mp hm with rfl | ⟨c, hc, -⟩
  · rfl
  · rw [hp.leaf hkind] at hc
    cases hc

/-- Nodes have places in them, where `P n p` says that `p` is a place of `n`.  The places are apart if
those of a node and of what is below it are. -/
theorem WellFormed.pairwise_places (h : root.WellFormed) {P : Node → Node → Prop}
    (hmem : ∀ n p, P n p → p ∈ n.walk)
    (hbelow : ∀ n ∈ root.walk, ∀ m ∈ walkAll n.children, ∀ p q, P n p → P m q → p.Apart q) :
    root.walk.Pairwise fun n m => ∀ p q, P n p → P m q → p.Apart q := by
  refine h.allNested.pairwise_walk.imp_of_mem fun {n m} hn hm hnm p q hp hq => ?_
  rcases hnm with hmn | hnm
  · exact hbelow n hn m hmn p q hp hq
  · have hrange := (h.of_walk hn).allNested.range (hmem n p hp)
    have hrange' := (h.of_walk hm).allNested.range (hmem m q hq)
    left
    omega

end Node

/-! ## Edits that are apart -/

namespace Edit

/-- An edit begins and ends before another one begins. -/
def Before (a b : Edit) : Prop := a.start ≤ b.start ∧ a.stop ≤ b.start

/-- Of two edits the one is before the other. -/
def Apart (a b : Edit) : Prop := a.Before b ∨ b.Before a

/-- No edit reaches into another one. -/
def AllApart (edits : List Edit) : Prop := edits.Pairwise Apart

/-- Edits of which none begins in front of the source or reaches into another one. -/
structure Applicable (edits : List Edit) : Prop where
  nonneg : ∀ e ∈ edits, 0 ≤ e.start
  apart : AllApart edits

/-- An edit changes nothing but a node. -/
structure Within (e : Edit) (n : Node) : Prop where
  le_start : n.start ≤ e.start
  start_le : e.start ≤ n.stop
  stop_le : e.stop ≤ n.stop

variable {a b e : Edit} {edits : List Edit} {m n : Node}

theorem Within.apart (ha : a.Within m) (hb : b.Within n) (h : m.Apart n) : a.Apart b := by
  obtain ⟨ha, ha', ha''⟩ := ha
  obtain ⟨hb, hb', hb''⟩ := hb
  rcases h with h | h
  · exact .inl ⟨by omega, by omega⟩
  · exact .inr ⟨by omega, by omega⟩

theorem Within.nonneg (h : e.Within n) : 0 ≤ e.start :=
  Int.le_trans (Int.natCast_nonneg n.start) h.le_start

theorem Applicable.nil : Applicable [] := ⟨nofun, .nil⟩

/-- Edits are apart exactly if in order none begins before an earlier one ends. -/
theorem allApart_iff : AllApart edits ↔ Separate (inOrder edits) := by
  have hsymm : ∀ {a b : Edit}, Apart a b → Apart b a := fun h => h.symm
  rw [AllApart, ← (perm_inOrder edits).pairwise_iff hsymm]
  constructor
  · intro h
    refine (h.and (pairwise_inOrder edits)).imp fun {a b} ⟨hapart, horder⟩ => ?_
    rw [notAfter_iff] at horder
    rcases hapart with ⟨-, hstop⟩ | ⟨hstart, hstop⟩
    · exact hstop
    · omega
  · intro h
    refine (h.and (pairwise_inOrder edits)).imp fun {a b} ⟨hseparate, horder⟩ => ?_
    exact .inl ⟨start_le_of_notAfter horder, hseparate⟩

/-- Making edits fails for an overlap exactly if they are not apart. -/
theorem exists_overlap_iff {s : Source} (hstart : ∀ e ∈ edits, 0 ≤ e.start) :
    (∃ path start, s.apply edits = .error (.overlap path start)) ↔ ¬AllApart edits := by
  rw [allApart_iff, ← overlap?_eq_none_iff hstart, ← ne_eq, Option.ne_none_iff_exists']
  simp only [Source.apply_overlap_iff]
  exact ⟨fun ⟨_, start, h, _⟩ => ⟨start, h⟩, fun ⟨start, h⟩ => ⟨_, start, h, rfl⟩⟩

end Edit

open Edit (AllApart Applicable)

/-! ## Names, attributes and specifiers -/

section Passes

variable {root : Node}

/-- The edits of nodes are apart if each changes nothing but a place of its node, and these are
apart. -/
theorem applicable_of_places (h : root.WellFormed) {edit? : Node → Option Edit}
    {P : Node → Node → Prop} (hmem : ∀ n p, P n p → p ∈ n.walk)
    (hbelow : ∀ n ∈ root.walk, ∀ m ∈ walkAll n.children, ∀ p q, P n p → P m q → p.Apart q)
    (hedit : ∀ n ∈ root.walk, ∀ e, edit? n = some e → ∃ p, P n p ∧ e.Within p) :
    Applicable (root.walk.filterMap edit?) := by
  refine ⟨fun e he => ?_, ?_⟩
  · obtain ⟨n, hn, he⟩ := List.mem_filterMap.mp he
    obtain ⟨p, -, hwithin⟩ := hedit n hn e he
    exact hwithin.nonneg
  refine List.pairwise_filterMap.mpr ((h.pairwise_places hmem hbelow).imp_of_mem ?_)
  intro n m hn hm hapart a ha b hb
  obtain ⟨p, hp, hwithin⟩ := hedit n hn a ha
  obtain ⟨q, hq, hwithin'⟩ := hedit m hm b hb
  exact hwithin.apart hwithin' (hapart p q hp hq)

theorem within_of_places {n : Node} (h : n.start ≤ n.stop) {e : Edit} (hstart : e.start = n.start)
    (hstop : e.stop = n.stop) : e.Within n := by
  constructor <;> omega

/-- Names are leaves. -/
theorem Identifiers.applicable_edits (h : root.WellFormed) {p : Plan} {edits : List Edit}
    (hedits : Identifiers.edits p root = .ok edits) : Applicable edits := by
  unfold Identifiers.edits at hedits
  split at hedits
  · exact Except.ok.inj hedits ▸ Applicable.nil
  split at hedits
  · cases hedits
  · rw [← Except.ok.inj hedits]
    refine applicable_of_places h (P := fun n p => n.kind ∈ leafKinds ∧ p = n) ?_ ?_ ?_
    · rintro n p ⟨-, rfl⟩
      exact p.mem_walk_self
    · rintro n hn m hm p q ⟨hkind, -⟩ -
      rw [(h n hn).leaf hkind] at hm
      cases hm
    · intro n hn e he
      have hplace : n.kind ∈ leafKinds ∧ e.start = n.start ∧ e.stop = n.stop := by
        unfold edit? at he
        split at he
        · rename_i hkind
          obtain ⟨target, -, rfl⟩ := Option.map_eq_some_iff.mp he
          rw [beq_iff_eq.mp hkind]
          exact ⟨by decide, rfl, rfl⟩
        split at he
        · rename_i hkind
          obtain ⟨target, -, rfl⟩ := Option.map_eq_some_iff.mp he
          rw [isShorthand, Bool.or_eq_true, beq_iff_eq, beq_iff_eq] at hkind
          refine ⟨?_, rfl, rfl⟩
          rcases hkind with hkind | hkind <;> rw [hkind] <;> decide
        · cases he
      exact ⟨n, ⟨hplace.1, rfl⟩, within_of_places (h n hn).start_le_stop hplace.2.1 hplace.2.2⟩

/-- The name of an attribute has no attribute in it. -/
theorem TestAttributes.not_mem_walk_name {n m p : Node} (h : n.WellFormed)
    (hn : n.kind = .jsxAttribute) (hp : n.firstPart? = some p) (hm : m.kind = .jsxAttribute)
    (hpart : m.firstPart? ≠ none) : m ∉ p.walk := by
  intro hmem
  have hname := (h.of_children (mem_children_of_firstPart? hp)).formed
  have hkind := h.formed.named hn p hp
  rw [attributeNames, List.mem_cons, List.mem_singleton] at hkind
  rcases hkind with hkind | hkind
  · rw [eq_of_mem_walk_leaf hname (by rw [hkind]; decide) hmem, hkind] at hm
    cases hm
  · rcases mem_walk_iff.mp hmem with rfl | ⟨c, hc, hmc⟩
    · rw [hkind] at hm
      cases hm
    · have hchildren := hname.namespaced hkind c hc
      rcases mem_walk_iff.mp hmc with rfl | ⟨d, hd, -⟩
      · exact hpart (by rw [firstPart?, parts, namedChildren, hchildren]; rfl)
      · rw [hchildren] at hd
        cases hd

/-- Names of attributes are apart. -/
theorem TestAttributes.applicable_edits (h : root.WellFormed) {n : Naming} {edits : List Edit}
    (hedits : TestAttributes.edits n root = .ok edits) : Applicable edits := by
  have hall : ∀ convention : String, Applicable (root.walk.filterMap (edit? convention)) := by
    intro convention
    refine applicable_of_places h
      (P := fun n p => n.kind = .jsxAttribute ∧ n.firstPart? = some p) ?_ ?_ ?_
    · rintro n p ⟨-, hp⟩
      exact mem_walk_of_mem_children (mem_children_of_firstPart? hp)
    · rintro n hn m hm p q ⟨hkind, hp⟩ ⟨hkind', hq⟩
      have hnot := not_mem_walk_name (h.of_walk hn) hkind hp hkind' (by rw [hq]; nofun)
      exact (h.of_walk hn).apart_below (mem_children_of_firstPart? hp) hm hnot p.mem_walk_self
        (mem_walk_of_mem_children (mem_children_of_firstPart? hq))
    · intro n hn e he
      unfold edit? at he
      split at he
      · rename_i hkind
        obtain ⟨p, hp, he⟩ := Option.bind_eq_some_iff.mp he
        split at he
        · have hmem := mem_walk_of_mem_children (mem_children_of_firstPart? hp)
          obtain rfl := Option.some.inj he
          exact ⟨p, ⟨beq_iff_eq.mp hkind, hp⟩,
            within_of_places (h p (walk_trans hn hmem)).start_le_stop rfl rfl⟩
        · cases he
      · cases he
  unfold TestAttributes.edits at hedits
  split at hedits
  · exact Except.ok.inj hedits ▸ Applicable.nil
  · rename_i convention _
    split at hedits
    · cases hedits
    · exact Except.ok.inj hedits ▸ hall _

namespace Specifiers

/-- The kinds of nodes that name a module. -/
def namingKinds : List Kind := [.importStatement, .exportStatement, .callExpression]

theorem kind_of_moduleName? {n p : Node} (h : moduleName? n = some p) : n.kind ∈ namingKinds := by
  unfold moduleName? at h
  split at h
  · rename_i hkind
    rw [hkind]
    decide
  · rename_i hkind
    rw [hkind]
    decide
  · rename_i hkind
    rw [hkind]
    decide
  · cases h

/-- The string that names a module is a child of its node, or an argument. -/
theorem moduleName?_cases {n p : Node} (h : moduleName? n = some p) :
    n.child? .source = some p ∨
      ∃ args, n.child? .arguments = some args ∧ args.firstPart? = some p ∧ p.kind = .string := by
  unfold moduleName? at h
  split at h
  · exact .inl h
  · exact .inl h
  · split at h
    · rename_i args _ hargs
      split at h
      · obtain ⟨hfirst, hkind⟩ := Option.filter_eq_some_iff.mp h
        exact .inr ⟨args, hargs, hfirst, beq_iff_eq.mp hkind⟩
      · cases h
    · cases h
  · cases h

theorem kind_of_child? {n c : Node} {r : Role} {kinds : List Kind} (h : n.Formed)
    (hc : n.child? r = some c) (hkinds : kindsOf r = some kinds) : c.kind ∈ kinds :=
  h.roles c (mem_children_of_child? hc) r (by simpa using List.find?_some hc) kinds hkinds

theorem string_of_moduleName? {n p : Node} (hn : n.Formed) (h : moduleName? n = some p) :
    p.kind = .string := by
  rcases moduleName?_cases h with hsource | ⟨args, -, -, hkind⟩
  · exact List.mem_singleton.mp (kind_of_child? hn hsource rfl)
  · exact hkind

theorem mem_walk_of_moduleName? {n p : Node} (h : moduleName? n = some p) : p ∈ n.walk := by
  rcases moduleName?_cases h with hsource | ⟨args, hargs, hfirst, -⟩
  · exact mem_walk_of_child? hsource
  · exact walk_trans (mem_walk_of_child? hargs)
      (mem_walk_of_mem_children (mem_children_of_firstPart? hfirst))

/-- The string that names a module is apart from whatever names a module below its node. -/
theorem apart_of_below {n m p q : Node} (h : n.WellFormed) (hm : m ∈ walkAll n.children)
    (hp : moduleName? n = some p) (hq : moduleName? m = some q) : p.Apart q := by
  have hkind := kind_of_moduleName? hq
  have hstring := string_of_moduleName? h.formed hp
  have hq' := mem_walk_of_moduleName? hq
  have hnot : m ∉ p.walk := by
    intro hmem
    have hformed := (h.of_walk (mem_walk_of_moduleName? hp)).formed
    rw [eq_of_mem_walk_leaf hformed (by rw [hstring]; decide) hmem, hstring] at hkind
    exact absurd hkind (by decide)
  rcases moduleName?_cases hp with hsource | ⟨args, hargs, hfirst, -⟩
  · exact h.apart_below (mem_children_of_child? hsource) hm hnot p.mem_walk_self hq'
  · have hchild := mem_children_of_firstPart? hfirst
    by_cases hmem : m ∈ args.walk
    · -- what is below the arguments is below one of them, since no arguments name a module
      have hargs' := h.of_children (mem_children_of_child? hargs)
      rcases mem_walk_iff.mp hmem with rfl | hbelow
      · have hkinds := kind_of_child? h.formed hargs rfl
        rw [List.mem_cons, List.mem_singleton] at hkinds
        rcases hkinds with hkinds | hkinds <;> rw [hkinds] at hkind <;>
          exact absurd hkind (by decide)
      · exact hargs'.apart_below hchild (mem_walkAll.mpr hbelow) hnot p.mem_walk_self hq'
    · exact h.apart_below (mem_children_of_child? hargs) hm hmem (mem_walk_of_mem_children hchild)
        hq'

theorem pairwise_inTree (h : root.WellFormed) :
    (inTree root).Pairwise fun x y => x.1.Apart y.1 := by
  have hnames : (root.walk.filterMap moduleName?).Pairwise Node.Apart :=
    List.pairwise_filterMap.mpr <|
      (h.pairwise_places (P := fun n p => moduleName? n = some p)
        (fun _ _ => mem_walk_of_moduleName?)
        (fun n hn m hm p q => apart_of_below (h.of_walk hn) hm)).imp fun {n m} hapart p hp q hq =>
          hapart p q hp hq
  refine List.pairwise_filterMap.mpr (hnames.imp fun {p q} hapart x hx y hy => ?_)
  obtain ⟨_, -, rfl⟩ := Option.map_eq_some_iff.mp hx
  obtain ⟨_, -, rfl⟩ := Option.map_eq_some_iff.mp hy
  exact hapart

theorem wide_of_mem_inTree (h : root.WellFormed) {x : Node × String} (hx : x ∈ inTree root) :
    x.1.start < x.1.stop := by
  obtain ⟨p, hp, hx⟩ := List.mem_filterMap.mp hx
  obtain ⟨n, hn, hname⟩ := List.mem_filterMap.mp hp
  obtain ⟨_, -, rfl⟩ := Option.map_eq_some_iff.mp hx
  have hmem := walk_trans hn (mem_walk_of_moduleName? hname)
  refine (h p hmem).wide ?_
  rw [string_of_moduleName? (h n hn) hname]
  decide

/-- The edits of specifiers that are apart are apart, and lie in them. -/
theorem allApart_editsFrom {b : Batch} {names : List (Node × String)}
    (hapart : names.Pairwise fun x y => x.1.Apart y.1)
    (hwide : ∀ x ∈ names, x.1.start < x.1.stop) {p p' : Plan} {edits : List Edit}
    (h : editsFrom b p names = .ok (p', edits)) :
    AllApart edits ∧ ∀ e ∈ edits, ∃ x ∈ names, e.Within x.1 := by
  induction names generalizing p edits with
  | nil =>
    obtain ⟨-, rfl⟩ := Prod.mk.inj (Except.ok.inj h)
    exact ⟨.nil, nofun⟩
  | cons x rest ih =>
    obtain ⟨name, specifier⟩ := x
    obtain ⟨hfirst, hrest⟩ := List.pairwise_cons.mp hapart
    obtain ⟨hname, hwide⟩ := List.forall_mem_cons.mp hwide
    rw [editsFrom] at h
    split at h
    · cases h
    · rename_i p'' new _
      cases htail : editsFrom b p'' rest with
      | error e =>
        rw [htail] at h
        cases h
      | ok r =>
        rw [htail] at h
        obtain ⟨plan, tail⟩ := r
        obtain ⟨rfl, rfl⟩ := Prod.mk.inj (Except.ok.inj h)
        obtain ⟨hall, hwithin⟩ := ih hrest hwide htail
        have hhead : ∀ e ∈ (edit? name specifier new).toList, e.Within name := by
          intro e he
          obtain ⟨s, -, rfl⟩ := Option.map_eq_some_iff.mp (Option.mem_toList.mp he)
          constructor <;> dsimp only at hname ⊢ <;> omega
        refine ⟨List.pairwise_append.mpr ⟨?_, hall, fun e he e' he' => ?_⟩, fun e he => ?_⟩
        · cases edit? name specifier new with
          | none => exact .nil
          | some e => exact List.pairwise_singleton _ e
        · obtain ⟨x, hx, hx'⟩ := hwithin e' he'
          exact (hhead e he).apart hx' (hfirst x hx)
        · rcases List.mem_append.mp he with he | he
          · exact ⟨_, List.mem_cons_self, hhead e he⟩
          · obtain ⟨x, hx, hx'⟩ := hwithin e he
            exact ⟨x, List.mem_cons_of_mem _ hx, hx'⟩

/-- Strings that name modules are apart. -/
theorem applicable_edits (h : root.WellFormed) {b : Batch} {p p' : Plan} {edits : List Edit}
    (hedits : Specifiers.edits b p root = .ok (p', edits)) : Applicable edits := by
  obtain ⟨hapart, hwithin⟩ :=
    allApart_editsFrom (pairwise_inTree h) (fun _ => wide_of_mem_inTree h) hedits
  refine ⟨fun e he => ?_, hapart⟩
  obtain ⟨x, -, hx⟩ := hwithin e he
  exact hx.nonneg

end Specifiers

theorem Header.applicable_edits (n : Naming) (p : Plan) (bytes : Bytes) :
    Applicable (Header.edits n p bytes) := by
  unfold Header.edits
  split
  · exact .nil
  · exact ⟨List.forall_mem_singleton.mpr (Int.le_refl 0), List.pairwise_singleton _ _⟩

end Passes

end Transplant
