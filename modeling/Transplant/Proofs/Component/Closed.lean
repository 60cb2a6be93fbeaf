import Transplant.Proofs.Adapt.Placement
import Transplant.Proofs.Comments.Descriptor
import Transplant.Proofs.Component.Binding

/-!
# Defaults that need nothing from their module

A default is written into a test as it stands if it is marked as self-contained, and then it must be
closed: every name that it reads is known to every script or is a parameter of a function around the
place where it is read, and `this` is not read.

The mark is given for want of free names, and these are told by one set of bound names for the whole
expression, to which every identifier in the parameters of any of its functions belongs.  So a name
is taken for bound outside of the function that binds it, and where a parameter only reads it.  Such
a read strays, and `Props.selfContained_closed_iff` says that nothing else keeps a marked default
from being closed.

* `Expression.Closed`, `Expression.Strays`
* `Expression.mem_freeNames_iff`: the free names of an expression
* `Expression.closed_of_one_function`: defaults without strays
* `Props.writtenDefaults`: the expressions that are written as defaults
* `Props.selfContained_closed_iff`: which of the defaults that are marked are closed
* `Props.default_of_parameter_strays`: one that is not
-/

namespace Transplant

open Node

namespace Expression

/-! ## What an expression reads -/

/-- An identifier or a shorthand property is read, unless it is the name of a plain element. -/
def IsRead (v : Visit) : Prop :=
  (v.node.kind = .identifier ∨ v.node.kind = .shorthandPropertyIdentifier) ∧
    ¬(v.parent?.any (·.kind.isTag) = true ∧ Text.isCapitalized v.node.text = false)

instance (v : Visit) : Decidable (IsRead v) := inferInstanceAs (Decidable (_ ∧ _))

/-- Some function around a place binds the name by a parameter. -/
def BoundAround (v : Visit) (name : String) : Prop :=
  ∃ fn ∈ v.above, fn.kind.isScope = true ∧ name ∈ Function.bound fn

instance (v : Visit) (name : String) : Decidable (BoundAround v name) :=
  inferInstanceAs (Decidable (∃ fn ∈ v.above, fn.kind.isScope = true ∧ name ∈ Function.bound fn))

/-- What an expression reads is known everywhere or bound by a function around it, and `this` does
not occur. -/
def Closed (e : Node) : Prop :=
  ∀ v ∈ e.visits [], v.node.kind ≠ .thisExpression ∧
    (IsRead v → v.node.text ∈ globals ∨ BoundAround v v.node.text)

instance (e : Node) : Decidable (Closed e) :=
  inferInstanceAs (Decidable (∀ v ∈ e.visits [], v.node.kind ≠ .thisExpression ∧
    (IsRead v → v.node.text ∈ globals ∨ BoundAround v v.node.text)))

/-- A name stands as an identifier in the parameters of a function, to bind it or to read it. -/
def Mentions (fn : Node) (name : String) : Prop :=
  ∃ param ∈ Function.params fn, ∃ m ∈ param.walk, m.kind = .identifier ∧ m.text = name

instance (fn : Node) (name : String) : Decidable (Mentions fn name) :=
  inferInstanceAs (Decidable (∃ param ∈ Function.params fn, ∃ m ∈ param.walk,
    m.kind = .identifier ∧ m.text = name))

/-- A read that strays from its binding: a name that is not known everywhere and that no function
around it binds, while some function of the expression mentions it in its parameters. -/
def Strays (e : Node) (v : Visit) : Prop :=
  IsRead v ∧ v.node.text ∉ globals ∧ ¬BoundAround v v.node.text ∧
    ∃ fn ∈ e.walk, fn.kind.isFunction = true ∧ Mentions fn v.node.text

instance (e : Node) (v : Visit) : Decidable (Strays e v) := inferInstanceAs (Decidable (_ ∧ _))

/-! ## Free names -/

theorem mem_boundNames_iff {e : Node} {name : String} :
    name ∈ boundNames e ↔ ∃ fn ∈ e.walk, fn.kind.isFunction = true ∧ Mentions fn name := by
  simp only [boundNames, Mentions, List.mem_flatMap, List.mem_map, List.mem_filter, beq_iff_eq,
    and_assoc]

theorem readName?_eq_some_iff {v : Visit} {name : String} :
    readName? v = some name ↔
      (v.node.kind = .thisExpression ∧ name = "this") ∨ (IsRead v ∧ name = v.node.text) := by
  unfold readName? IsRead
  split
  · rename_i hthis
    have hkind := beq_iff_eq.mp hthis
    refine ⟨fun h => .inl ⟨hkind, (Option.some.inj h).symm⟩, ?_⟩
    rintro (⟨-, rfl⟩ | ⟨⟨hread | hread, -⟩, -⟩)
    · rfl
    · cases hkind.symm.trans hread
    · cases hkind.symm.trans hread
  · rename_i hthis
    have hne : v.node.kind ≠ .thisExpression := fun hkind => hthis (beq_iff_eq.mpr hkind)
    split
    · rename_i hkind
      have hread : v.node.kind = .identifier ∨ v.node.kind = .shorthandPropertyIdentifier := by
        simpa only [Bool.or_eq_true, beq_iff_eq] using hkind
      split
      · rename_i htag
        have hplain := Bool.and_eq_true_iff.mp htag
        rw [Bool.not_eq_true'] at hplain
        exact iff_of_false nofun fun h => h.elim (fun h => hne h.1) fun h => h.1.2 hplain
      · rename_i htag
        rw [Bool.and_eq_true, Bool.not_eq_true'] at htag
        exact ⟨fun h => .inr ⟨⟨hread, htag⟩, (Option.some.inj h).symm⟩,
          fun h => h.elim (fun h => absurd h.1 hne) fun h => congrArg some h.2.symm⟩
    · rename_i hkind
      rw [Bool.or_eq_true, beq_iff_eq, beq_iff_eq] at hkind
      exact iff_of_false nofun fun h => h.elim (fun h => hne h.1) fun h => hkind h.1.1

theorem IsRead.not_this {v : Visit} (h : IsRead v) : v.node.kind ≠ .thisExpression := by
  intro hthis
  rcases h.1 with hkind | hkind <;> rw [hkind] at hthis <;> cases hthis

/-- The free names of an expression: those it reads and no parameter in it mentions, and `this`. -/
theorem mem_freeNames_iff {e : Node} {name : String} :
    name ∈ freeNames e ↔ name ∉ globals ∧ ∃ v ∈ e.visits [],
      (v.node.kind = .thisExpression ∧ name = "this") ∨
        (IsRead v ∧ name = v.node.text ∧ name ∉ boundNames e) := by
  have hread (v : Visit) : ((readName? v).filter fun name =>
      v.node.kind == .thisExpression || !(boundNames e).contains name) = some name ↔
      (v.node.kind = .thisExpression ∧ name = "this") ∨
        (IsRead v ∧ name = v.node.text ∧ name ∉ boundNames e) := by
    rw [Option.filter_eq_some_iff, readName?_eq_some_iff, or_and_right]
    refine or_congr ?_ ?_
    · refine ⟨And.left, fun h => ⟨h, ?_⟩⟩
      rw [h.1]
      rfl
    · refine ⟨fun ⟨⟨hv, hname⟩, hfree⟩ => ⟨hv, hname, ?_⟩,
        fun ⟨hv, hname, hfree⟩ => ⟨⟨hv, hname⟩, ?_⟩⟩
      · simpa [hv.not_this] using hfree
      · simpa [hv.not_this] using hfree
  rw [freeNames, mem_eachOnce, List.mem_filter, List.mem_filterMap, and_comm]
  simp only [hread, Bool.not_eq_true', ← Bool.not_eq_true, List.contains_iff_mem]

theorem freeNames_eq_nil_iff {e : Node} :
    freeNames e = [] ↔ ∀ v ∈ e.visits [], v.node.kind ≠ .thisExpression ∧
      (IsRead v → v.node.text ∈ globals ∨ v.node.text ∈ boundNames e) := by
  rw [List.eq_nil_iff_forall_not_mem]
  constructor
  · intro h v hv
    constructor
    · intro hthis
      exact h "this" (mem_freeNames_iff.mpr ⟨by decide, v, hv, .inl ⟨hthis, rfl⟩⟩)
    · intro hread
      by_contra hnone
      obtain ⟨hglobal, hbound⟩ := not_or.mp hnone
      exact h v.node.text (mem_freeNames_iff.mpr ⟨hglobal, v, hv, .inr ⟨hread, rfl, hbound⟩⟩)
  · intro h name hname
    obtain ⟨hglobal, v, hv, ⟨hthis, -⟩ | ⟨hread, rfl, hbound⟩⟩ := mem_freeNames_iff.mp hname
    · exact (h v hv).1 hthis
    · exact ((h v hv).2 hread).elim hglobal hbound

/-- Without free names an expression is closed as long as nothing in it strays. -/
theorem closed_iff_of_freeNames {e : Node} (h : freeNames e = []) :
    Closed e ↔ ∀ v ∈ e.visits [], ¬Strays e v := by
  rw [freeNames_eq_nil_iff] at h
  constructor
  · rintro hclosed v hv ⟨hread, hglobal, hbound, -⟩
    exact ((hclosed v hv).2 hread).elim hglobal hbound
  · intro hstrays v hv
    refine ⟨(h v hv).1, fun hread => ?_⟩
    by_contra hnone
    obtain ⟨hglobal, hbound⟩ := not_or.mp hnone
    have hmentioned := ((h v hv).2 hread).resolve_left hglobal
    exact hstrays v hv ⟨hread, hglobal, hbound, mem_boundNames_iff.mp hmentioned⟩

/-- A function with no other function in it is closed if it has no free names and its parameters
only bind: all of it, the function aside, stands where the parameters are bound. -/
theorem closed_of_one_function {e : Node} (hfn : e.kind.isFunction = true)
    (hone : ∀ fn ∈ e.walk, fn.kind.isFunction = true → fn = e)
    (hbinds : ∀ name, Mentions e name → name ∈ Function.bound e) (h : freeNames e = []) :
    Closed e := by
  rw [closed_iff_of_freeNames h]
  rintro v hv ⟨hread, -, hbound, fn, hmem, hkind, hmentions⟩
  rw [hone fn hmem hkind] at hmentions
  have hne : v ≠ ⟨e, []⟩ := by
    rintro rfl
    rcases hread.1 with hidentifier | hproperty
    · rw [show e.kind = _ from hidentifier] at hfn
      cases hfn
    · rw [show e.kind = _ from hproperty] at hfn
      cases hfn
  exact hbound ⟨e, mem_above_of_mem_visits hv hne, Kind.isScope_of_isFunction hfn,
    hbinds _ hmentions⟩

end Expression

namespace Props

open Expression

/-! ## Defaults of props -/

/-- The defaults in the patterns of a function, with their props. -/
def patternDefaults (fn : Node) : List (String × Node) :=
  fn.walk.filterMap fun m => (ofMember? m).bind fun member => member.2.map (member.1, ·)

/-- The defaults that are written for a component: in its patterns, and in its object of default
props. -/
def writtenDefaults (root : Node) (site : Site) : List (String × Node) :=
  patternDefaults site.callable ++
    ((Site.defaults? root site).map fun d =>
      d.pairs.map fun pair => (pair.prop, pair.value)).getD []

/-- A prop that says of its default what the default says: its text, and whether it has free
names. -/
def Tells (p : PropSpec) (e : Node) : Prop :=
  p.defaultText = some e.text ∧ (p.selfContained = true ↔ freeNames e = [])

variable {root : Node} {site : Site} {types : List (String × Typing)} {p : PropSpec}

theorem make_tells {name : String} {dflt : Option Node}
    (h : (make types name dflt).hasDefault = true) :
    ∃ e, dflt = some e ∧ Tells (make types name dflt) e := by
  obtain ⟨e, rfl⟩ := Option.isSome_iff_exists.mp h
  exact ⟨e, rfl, rfl, List.isEmpty_iff⟩

theorem ofPattern_tells {pattern : Node} (hpattern : pattern ∈ site.callable.walk) {place : Nat}
    (h : (place, p) ∈ ofPattern types pattern) (hdefault : p.hasDefault = true) :
    ∃ e, (p.name, e) ∈ writtenDefaults root site ∧ Tells p e := by
  obtain ⟨m, hm, hmember⟩ := List.mem_filterMap.mp h
  obtain ⟨⟨name, dflt⟩, hof, hmade⟩ := Option.map_eq_some_iff.mp hmember
  obtain ⟨-, rfl⟩ := Prod.mk.inj hmade
  obtain ⟨e, rfl, htells⟩ := make_tells hdefault
  exact ⟨e, List.mem_append_left _ (List.mem_filterMap.mpr
    ⟨m, walk_trans hpattern (mem_walk_of_mem_parts hm), by rw [hof]; rfl⟩), htells⟩

theorem readAt_tells {param : String} {n : Node} (hn : n ∈ site.callable.walk) {place : Nat}
    (h : (place, p) ∈ (readAt types param n).1) (hdefault : p.hasDefault = true) :
    ∃ e, (p.name, e) ∈ writtenDefaults root site ∧ Tells p e := by
  unfold readAt at h
  split at h
  · -- a declaration that takes the parameter apart
    split at h
    · rename_i name value hname _
      split at h
      · exact ofPattern_tells (walk_trans hn (mem_walk_of_child? hname)) h hdefault
      · cases h
    · cases h
  · -- a member that is read has no default
    split at h
    · split at h
      · obtain ⟨-, rfl⟩ := Prod.mk.inj (List.mem_singleton.mp h)
        cases hdefault
      · cases h
    · cases h
  all_goals first | cases h | (split at h <;> cases h)

theorem exists_place_of_mem_inOrder {found : List (Nat × PropSpec)} (h : p ∈ inOrder found) :
    ∃ place, (place, p) ∈ found := by
  have hfold (l : List (Nat × PropSpec)) (seen : List PropSpec)
      (h : p ∈ l.foldl (fun seen p => if seen.any (·.name == p.2.name) then seen
        else seen ++ [p.2]) seen) : p ∈ seen ∨ ∃ place, (place, p) ∈ l := by
    induction l generalizing seen with
    | nil => exact .inl h
    | cons q rest ih =>
      rw [List.foldl_cons] at h
      rcases ih _ h with hseen | ⟨place, hplace⟩
      · split at hseen
        · exact .inl hseen
        · rcases List.mem_append.mp hseen with hseen | hq
          · exact .inl hseen
          · exact .inr ⟨q.1, by rw [List.mem_singleton.mp hq]; exact List.mem_cons_self⟩
      · exact .inr ⟨place, List.mem_cons_of_mem _ hplace⟩
  obtain hnil | ⟨place, hplace⟩ := hfold _ _ h
  · cases hnil
  · exact ⟨place, List.mem_mergeSort.mp hplace⟩

theorem ofParameter_tells {param : Node} (hparam : param ∈ Function.params site.callable)
    (h : p ∈ (ofParameter root site param).props) (hdefault : p.hasDefault = true) :
    ∃ e, (p.name, e) ∈ writtenDefaults root site ∧ Tells p e := by
  have hpattern := walk_trans (Function.mem_walk_of_mem_params hparam)
    (Function.pattern_mem_walk param)
  rw [ofParameter] at h
  dsimp only at h
  split at h
  · obtain ⟨⟨place, q⟩, hmem, rfl⟩ := List.mem_map.mp h
    exact ofPattern_tells hpattern hmem hdefault
  · split at h
    · obtain ⟨place, hplace⟩ := exists_place_of_mem_inOrder h
      obtain ⟨read, hread, hmem⟩ := List.mem_flatMap.mp hplace
      obtain ⟨n, hn, rfl⟩ := List.mem_map.mp hread
      exact readAt_tells hn hmem hdefault
    · cases h

theorem mem_replaceFirst {merged : PropSpec} {props : List PropSpec}
    (h : p ∈ replaceFirst merged props) : p = merged ∨ p ∈ props := by
  induction props with
  | nil => cases h
  | cons q rest ih =>
    rw [replaceFirst] at h
    split at h
    · exact (List.mem_cons.mp h).imp_right (List.mem_cons_of_mem _)
    · rcases List.mem_cons.mp h with rfl | h
      · exact .inr List.mem_cons_self
      · exact (ih h).imp_right (List.mem_cons_of_mem _)

theorem mem_mergeDefault {props : List PropSpec} {pair : Site.DefaultPair}
    (h : p ∈ mergeDefault props pair) : p ∈ props ∨ (p.name = pair.prop ∧ Tells p pair.value) := by
  have hmerged {q : PropSpec} {merged : PropSpec} (hq : q = merged)
      (hname : merged.name = pair.prop) (htext : merged.defaultText = some pair.value.text)
      (hfree : merged.selfContained = (freeNames pair.value).isEmpty) :
      q.name = pair.prop ∧ Tells q pair.value := by
    rw [hq]
    exact ⟨hname, htext, by rw [hfree, List.isEmpty_iff]⟩
  unfold mergeDefault at h
  split at h
  · rcases mem_replaceFirst (List.mem_reverse.mp h) with hp | hp
    · exact .inr (hmerged hp rfl rfl rfl)
    · exact .inl (List.mem_reverse.mp hp)
  · rcases List.mem_append.mp h with hp | hp
    · exact .inl hp
    · exact .inr (hmerged (List.mem_singleton.mp hp) rfl rfl rfl)

theorem mem_foldl_mergeDefault {pairs : List Site.DefaultPair} {props : List PropSpec}
    (h : p ∈ pairs.foldl mergeDefault props) :
    p ∈ props ∨ ∃ pair ∈ pairs, p.name = pair.prop ∧ Tells p pair.value := by
  induction pairs generalizing props with
  | nil => exact .inl h
  | cons pair rest ih =>
    rcases ih h with hp | ⟨q, hq, htells⟩
    · exact (mem_mergeDefault hp).imp_right fun htells => ⟨pair, List.mem_cons_self, htells⟩
    · exact .inr ⟨q, List.mem_cons_of_mem _ hq, htells⟩

/-- Every prop with a default tells what is written as its default. -/
theorem extract_tells (h : p ∈ (extract root site).props) (hdefault : p.hasDefault = true) :
    ∃ e, (p.name, e) ∈ writtenDefaults root site ∧ Tells p e := by
  unfold extract at h
  split at h
  · cases h
  · rename_i param rest hparams
    have hparam : param ∈ Function.params site.callable := by
      rw [hparams]
      exact List.mem_cons_self
    cases hd : Site.defaults? root site with
    | none =>
      rw [hd] at h
      exact ofParameter_tells hparam h hdefault
    | some d =>
      rw [hd] at h
      rcases mem_foldl_mergeDefault h with hp | ⟨pair, hpair, hname, htells⟩
      · exact ofParameter_tells hparam hp hdefault
      · refine ⟨pair.value, List.mem_append_right _ ?_, htells⟩
        rw [hd, hname]
        exact List.mem_map_of_mem hpair

/-- **Which of the defaults that are marked as self-contained are closed.**  A prop with a default
is marked if the expression that is written as its default has no free names.  A marked default is
closed exactly if no name in it strays: it reads nothing outside of the function that binds it, and
nothing that the parameters of a function only read. -/
theorem selfContained_closed_iff (h : p ∈ (extract root site).props)
    (hdefault : p.hasDefault = true) :
    ∃ e, (p.name, e) ∈ writtenDefaults root site ∧ p.defaultText = some e.text ∧
      (p.selfContained = true ↔ freeNames e = []) ∧
      (p.selfContained = true → (Closed e ↔ ∀ v ∈ e.visits [], ¬Strays e v)) := by
  obtain ⟨e, hof, htext, hmark⟩ := extract_tells h hdefault
  exact ⟨e, hof, htext, hmark, fun hp => closed_iff_of_freeNames (hmark.mp hp)⟩

/-- A component with a function as a default. -/
def formatted : String := "export const A = (\x7b format = (v) => String(v) \x7d) => <p/>;\n"

/-- The parameter of the function is read inside the function only. -/
theorem formatted_closed :
    ∃ s site p e, Source.parse formatted "A.jsx" = .ok s ∧ Site.locate s.root "A.jsx" = .ok site ∧
      p ∈ (extract s.root site).props ∧ p.selfContained = true ∧
      (p.name, e) ∈ writtenDefaults s.root site ∧ p.defaultText = some e.text ∧ Closed e := by
  obtain ⟨s, site, hs, hsite, ⟨p, hp, hdefault, hmarked⟩, hnone⟩ :=
    Site.exists_site formatted "A.jsx" (P := fun s site =>
      (∃ p ∈ (extract s.root site).props, p.hasDefault = true ∧ p.selfContained = true) ∧
        ∀ x ∈ writtenDefaults s.root site, ∀ v ∈ x.2.visits [], ¬Strays x.2 v)
      (by decide +kernel)
  obtain ⟨e, he, htext, -, hclosed⟩ := selfContained_closed_iff hp hdefault
  exact ⟨s, site, p, e, hs, hsite, hp, hmarked, he, htext, (hclosed hmarked).mpr (hnone _ he)⟩

/-- A component with a function as a default whose parameter has a name of the module as its
default. -/
def aliased : String := "const b = 1;\nexport const A = (\x7b f = (a = b) => a \x7d) => <p/>;\n"

/-- The name that the parameter reads is taken for bound. -/
theorem default_of_parameter_strays :
    ∃ s site p e, Source.parse aliased "A.jsx" = .ok s ∧ Site.locate s.root "A.jsx" = .ok site ∧
      p ∈ (extract s.root site).props ∧ p.selfContained = true ∧
      (p.name, e) ∈ writtenDefaults s.root site ∧ p.defaultText = some e.text ∧ ¬Closed e := by
  obtain ⟨s, site, hs, hsite, p, hp, hmarked, ⟨name, e⟩, he, rfl, htext, hopen⟩ :=
    Site.exists_site aliased "A.jsx" (P := fun s site =>
      ∃ p ∈ (extract s.root site).props, p.selfContained = true ∧
        ∃ x ∈ writtenDefaults s.root site, x.1 = p.name ∧ p.defaultText = some x.2.text ∧
          ¬Closed x.2)
      (by decide +kernel)
  exact ⟨s, site, p, e, hs, hsite, hp, hmarked, he, htext, hopen⟩

end Props
end Transplant
