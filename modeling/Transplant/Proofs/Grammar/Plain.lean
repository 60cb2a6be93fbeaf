import Transplant.Proofs.Comments.Tree
import Transplant.Proofs.Grammar.Derivations

/-!
# Plain trees

Two things that everybody takes for granted about the trees of sources: no slash stands in an
identifier, and what a function is called is an identifier.

## What can be seen from the grammar

A grammar is data, so most of this can be checked without running it.  `Peg.isPlain` looks at the
expressions: leaves that are identifiers are read as names, no other node is called an identifier,
and the nodes of functions are made of bodies that give the label of names to identifiers only.
That this is enough is shown by induction on derivations (`Derives.reads`).

* `Node.Plain`, `Node.Clean`: what is said of the nodes of a tree
* `Peg.isPlain`, `isPlainRule`: what is checked
* `Derives.reads`: a plain grammar reads plain trees
* `Source.clean_root`: the trees of sources are plain
-/

namespace Transplant

/-! ## Plain trees -/

namespace Node

/-- Identifiers have no slashes, and what a function is called is an identifier. -/
structure Plain (n : Node) : Prop where
  identifier : n.kind = .identifier → '/' ∉ n.text.toList
  called : n.kind.isFunction = true → ∀ c ∈ n.children, c.role = some .name → c.kind = .identifier

/-- All nodes of a tree are plain. -/
def Clean (n : Node) : Prop := ∀ m ∈ n.walk, m.Plain

theorem clean_iff {n : Node} : n.Clean ↔ n.Plain ∧ ∀ c ∈ n.children, c.Clean := by
  unfold Clean
  rw [walk_eq, List.forall_mem_cons, and_congr_right_iff]
  intro _
  constructor
  · exact fun h c hc m hm => h m (mem_walkAll.mpr ⟨c, hc, hm⟩)
  · intro h m hm
    obtain ⟨c, hc, hm⟩ := mem_walkAll.mp hm
    exact h c hc m hm

theorem Clean.plain {n : Node} (h : n.Clean) : n.Plain := (clean_iff.mp h).1

theorem Clean.of_mem {n c : Node} (h : n.Clean) (hc : c ∈ n.children) : c.Clean :=
  (clean_iff.mp h).2 c hc

theorem Clean.of_walk {n m : Node} (h : n.Clean) (hm : m ∈ n.walk) : m.Clean :=
  fun k hk => h k (walk_trans hm hk)

/-- What a node is for its parent does not matter. -/
theorem Clean.setRole {n : Node} (h : n.Clean) (r : Option Role) :
    ({ n with role := r } : Node).Clean := by
  obtain ⟨⟨hidentifier, hcalled⟩, hchildren⟩ := clean_iff.mp h
  exact clean_iff.mpr ⟨⟨hidentifier, hcalled⟩, hchildren⟩

/-- A node that is neither an identifier nor a function. -/
theorem clean_of_other {n : Node} (hidentifier : n.kind ≠ .identifier)
    (hfunction : n.kind.isFunction = false) (hchildren : ∀ c ∈ n.children, c.Clean) : n.Clean :=
  clean_iff.mpr ⟨⟨fun h => absurd h hidentifier, fun h => by simp [hfunction] at h⟩, hchildren⟩

end Node

namespace Grammar

open Utf8 (Glyph)

/-! ## What the grammar says -/

namespace Peg

variable {R : Type}

/-- Whether an expression is the leaf of an identifier. -/
def isIdentifier : Peg R → Bool
  | .leaf kind _ => kind == .identifier
  | _ => false

/-- Whether what an expression reads has the label of names on identifiers only, if that is so for
the rules that are `clear`. -/
def isCalling (clear : R → Bool) : Peg R → Bool
  | .seq a b | .alt a b => a.isCalling clear && b.isCalling clear
  | .many a => a.isCalling clear
  | .ref r => clear r
  | .role r a => if r = .name then a.isIdentifier else a.isCalling clear
  | _ => true

/-- Whether an expression reads plain trees only, if the rules do. -/
def isPlain (clear : R → Bool) : Peg R → Bool
  | .leaf kind lexeme => kind != .identifier || lexeme.isName
  | .seq a b | .alt a b => a.isPlain clear && b.isPlain clear
  | .many a | .role _ a | .unless a => a.isPlain clear
  | .node kind a =>
    a.isPlain clear && (kind :: a.becomes).all (· != .identifier) &&
      (a.isCalling clear || (kind :: a.becomes).all (!·.isFunction))
  | .wrap kind _ a =>
    a.isPlain clear && (kind :: a.becomes).all fun k => k != .identifier && !k.isFunction
  | _ => true

end Peg

/-- Whether a rule reads plain trees and changes no node around it, and, if it is `clear`, gives the
label of names to identifiers only. -/
def isPlainRule {R : Type} (rules : R → Peg R) (clear : R → Bool) (r : R) : Bool :=
  (rules r).isPlain clear && (rules r).becomes.isEmpty &&
    (!clear r || (rules r).isCalling clear)

/-! ## Frames -/

theorem IsComment.clean {n : Node} (h : IsComment n) : n.Clean := by
  obtain ⟨hkind, -, hchildren⟩ := h
  refine Node.clean_of_other ?_ ?_ ?_
  · rw [hkind]
    decide
  · rw [hkind]
    rfl
  · rw [hchildren]
    exact nofun

namespace Frame

variable {f g : Frame}

/-- All nodes of a frame are plain, and so are those below them. -/
def Clean (f : Frame) : Prop := ∀ n ∈ f.done, n.Clean

/-- The nodes of a frame that have the label of names are identifiers. -/
def Calling (f : Frame) : Prop := ∀ n ∈ f.done, n.role = some .name → n.kind = .identifier

/-- The nodes of a frame are identifiers, comments apart. -/
def Identifiers (f : Frame) : Prop := ∀ n ∈ f.done, n.kind = .identifier ∨ IsComment n

theorem Clean.passes (hf : f.Clean) (h : f.Passes g) : g.Clean := fun n hn =>
  (h.mem hn).elim (hf n) IsComment.clean

theorem Calling.passes (hf : f.Calling) (h : f.Passes g) : g.Calling := by
  intro n hn hrole
  rcases h.mem hn with hn | hn
  · exact hf n hn hrole
  · rw [hn.2.1] at hrole
    cases hrole

theorem Identifiers.passes (hf : f.Identifiers) (h : f.Passes g) : g.Identifiers := fun n hn =>
  (h.mem hn).elim (hf n) Or.inr

end Frame

/-! ## Reading -/

section Reading

variable {R : Type} {rules : R → Peg R} {clear : R → Bool} {e a b : Peg R} {f g g' : Frame}

/-- What comes of a frame by reading an expression. -/
structure Reads (clear : R → Bool) (e : Peg R) (f g : Frame) : Prop where
  clean : g.Clean
  calling : e.isCalling clear = true → f.Calling → g.Calling
  identifiers : e.isIdentifier = true → f.Identifiers → g.Identifiers

theorem Reads.pass (hf : f.Clean) (h : f.Passes g) : Reads clear e f g :=
  ⟨hf.passes h, fun _ hf => hf.passes h, fun _ hf => hf.passes h⟩

/-- Comments may be passed before an expression is read. -/
theorem Reads.of_passes (hpass : f.Passes g) (h : Reads clear e g g') : Reads clear e f g' where
  clean := h.clean
  calling hcalling hf := h.calling hcalling (hf.passes hpass)
  identifiers he hf := h.identifiers he (hf.passes hpass)

theorem Reads.seq (hfirst : Reads clear a f g) (hsecond : Reads clear b g g') :
    Reads clear (.seq a b) f g' where
  clean := hsecond.clean
  calling h hf := by
    obtain ⟨hleft, hright⟩ := Bool.and_eq_true_iff.mp h
    exact hsecond.calling hright (hfirst.calling hleft hf)
  identifiers := nofun

theorem Reads.left (h : Reads clear a f g) : Reads clear (.alt a b) f g where
  clean := h.clean
  calling hcalling := h.calling (Bool.and_eq_true_iff.mp hcalling).1
  identifiers := nofun

theorem Reads.right (h : Reads clear b f g) : Reads clear (.alt a b) f g where
  clean := h.clean
  calling hcalling := h.calling (Bool.and_eq_true_iff.mp hcalling).2
  identifiers := nofun

theorem Reads.more (hfirst : Reads clear a f g) (hrest : Reads clear (.many a) g g') :
    Reads clear (.many a) f g' where
  clean := hrest.clean
  calling h hf := hrest.calling h (hfirst.calling h hf)
  identifiers := nofun

/-- What a rule has read is joined to the frame that asks for it. -/
theorem Reads.join {r : R} {c : Cursor} (hrule : isPlainRule rules clear r = true) (hf : f.Clean)
    (h : Reads clear (rules r) ⟨c, [], none⟩ g) : Reads clear (.ref r) f (f.join g) where
  clean n hn := (List.mem_append.mp hn).elim (h.clean n) (hf n)
  calling hclear hcalling n hn := by
    rw [isPlainRule, Bool.and_eq_true, Bool.or_eq_true, Bool.not_eq_true'] at hrule
    refine (List.mem_append.mp hn).elim (h.calling (hrule.2.resolve_left ?_) nofun n) (hcalling n)
    rw [show clear r = true from hclear]
    decide
  identifiers := nofun

/-- A frame with one more node, which has no label. -/
theorem Reads.cons {here : Cursor} {n : Node} (hf : f.Clean) (hn : n.Clean)
    (hrole : n.role = none) (hkind : e.isIdentifier = true → n.kind = .identifier) :
    Reads clear e f { f with here, done := n :: f.done } where
  clean := List.forall_mem_cons.mpr ⟨hn, hf⟩
  calling _ hf := by
    refine List.forall_mem_cons.mpr ⟨fun hname => ?_, hf⟩
    rw [hrole] at hname
    cases hname
  identifiers he hf := List.forall_mem_cons.mpr ⟨Or.inl (hkind he), hf⟩

/-- A leaf that the check lets pass is plain. -/
theorem clean_leafTo {kind : Kind} {lexeme : Lexeme} {c : Cursor} {n : Nat}
    (hplain : (Peg.leaf kind lexeme : Peg R).isPlain clear = true)
    (hscan : lexeme.scan c.rest = some n) : (c.leafTo kind (Cursor.forward n c)).Clean := by
  refine Node.clean_iff.mpr ⟨⟨fun hkind => ?_, fun _ => nofun⟩, nofun⟩
  obtain rfl : kind = .identifier := hkind
  rw [Peg.isPlain, bne_self_eq_false, Bool.false_or] at hplain
  exact slash_notMem_leaf .identifier (Lexeme.slashless_of_scan hplain hscan)

/-- A body that the check lets pass makes a plain node. -/
theorem Reads.clean_node {kind made : Kind} {here : Cursor}
    (hplain : (Peg.node kind a).isPlain clear = true) (hmade : made ∈ kind :: a.becomes)
    (h : Reads clear a ⟨here, [], none⟩ g) (start stop line : Nat) (text : String) :
    (⟨made, none, start, stop, line, text, g.done.reverse⟩ : Node).Clean := by
  obtain ⟨hbody, hnames⟩ := Bool.and_eq_true_iff.mp hplain
  have hother := List.all_eq_true.mp (Bool.and_eq_true_iff.mp hbody).2
  refine Node.clean_iff.mpr ⟨⟨fun hidentifier => ?_, fun hfunction c hc => ?_⟩, fun c hc => ?_⟩
  · exact absurd hidentifier (bne_iff_ne.mp (hother _ hmade))
  · rcases Bool.or_eq_true_iff.mp hnames with hcalling | hno
    · exact h.calling hcalling nofun c (List.mem_reverse.mp hc)
    · have hnot := List.all_eq_true.mp hno _ hmade
      rw [show made.isFunction = true from hfunction] at hnot
      cases hnot
  · exact h.clean c (List.mem_reverse.mp hc)

/-- A node that is put around another one is plain if the check lets it pass. -/
theorem Reads.clean_wrap {kind made : Kind} {left : Option Role} {here : Cursor}
    (hplain : (Peg.wrap kind left a).isPlain clear = true) (hmade : made ∈ kind :: a.becomes)
    (h : Reads clear a ⟨here, [], none⟩ g) {first : Node} (hfirst : first.Clean)
    (start stop line : Nat) (text : String) :
    (⟨made, none, start, stop, line, text, first :: g.done.reverse⟩ : Node).Clean := by
  have hkind := List.all_eq_true.mp (Bool.and_eq_true_iff.mp hplain).2 _ hmade
  rw [Bool.and_eq_true, bne_iff_ne, Bool.not_eq_true'] at hkind
  refine Node.clean_of_other hkind.1 hkind.2 fun c hc => ?_
  rcases List.mem_cons.mp hc with rfl | hc
  · exact hfirst
  · exact h.clean c (List.mem_reverse.mp hc)

/-- What has been read is given a label, comments apart. -/
theorem Reads.role {r : Role} (hf : f.Clean) (h : Reads clear a { f with done := [] } g) :
    Reads clear (.role r a) f { g with done := g.done.map (Frame.label r) ++ f.done } where
  clean n hn := by
    rcases List.mem_append.mp hn with hn | hn
    · obtain ⟨m, hm, rfl⟩ := List.mem_map.mp hn
      unfold Frame.label
      split
      · exact h.clean m hm
      · exact (h.clean m hm).setRole (some r)
    · exact hf n hn
  calling hcalling hf n hn hname := by
    rcases List.mem_append.mp hn with hn | hn
    · obtain ⟨m, hm, rfl⟩ := List.mem_map.mp hn
      rw [Peg.isCalling] at hcalling
      unfold Frame.label at hname ⊢
      by_cases hr : r = .name
      · rw [if_pos hr] at hcalling
        rcases h.identifiers hcalling nofun m hm with hkind | hcomment
        · split
          · exact hkind
          · exact hkind
        · rw [if_pos (beq_iff_eq.mpr hcomment.1), hcomment.2.1] at hname
          cases hname
      · rw [if_neg hr] at hcalling
        split at hname
        · rename_i hcomment
          rw [if_pos hcomment]
          exact h.calling hcalling nofun m hm hname
        · exact absurd (Option.some.inj hname) hr
    · exact hf n hn hname
  identifiers := nofun

/-- **A plain grammar reads plain trees.** -/
theorem Derives.reads (hquiet : AreQuiet rules) (hrules : ∀ r, isPlainRule rules clear r = true)
    (h : Derives rules e f g) (hplain : e.isPlain clear = true) (hf : f.Clean) :
    Reads clear e f g := by
  induction h with
  | pass _ hg => exact .pass hf hg
  | leaf hg hscan =>
    exact .of_passes hg (.cons (hf.passes hg) (clean_leafTo hplain hscan) rfl beq_iff_eq.mp)
  | seq _ _ iha ihb =>
    obtain ⟨hplain, hplain'⟩ := Bool.and_eq_true_iff.mp hplain
    have ha := iha hplain hf
    exact ha.seq (ihb hplain' ha.clean)
  | left _ ih => exact (ih (Bool.and_eq_true_iff.mp hplain).1 hf).left
  | right _ ih => exact (ih (Bool.and_eq_true_iff.mp hplain).2 hf).right
  | more _ _ iha ihrest =>
    have ha := iha hplain hf
    exact ha.more (ihrest hplain ha.clean)
  | @ref r _ _ c _ _ _ ih =>
    have hbody := (Bool.and_eq_true_iff.mp (Bool.and_eq_true_iff.mp (hrules r)).1).1
    exact .join (hrules r) hf (ih hbody nofun)
  | @node kind a f g inner hg hinner ih =>
    have hbody := (Bool.and_eq_true_iff.mp (Bool.and_eq_true_iff.mp hplain).1).1
    refine .of_passes hg (.cons (hf.passes hg) ?_ rfl nofun)
    exact (ih hbody nofun).clean_node hplain (hinner.kind_mem hquiet kind) _ _ _ _
  | @wrap kind left a f inner last before hdone hinner ih =>
    have hlast : last.Clean := hf last (hdone ▸ List.mem_cons_self)
    have hbefore : ∀ n ∈ before, n ∈ f.done := fun n hn => hdone ▸ List.mem_cons_of_mem _ hn
    have hbody := ih (Bool.and_eq_true_iff.mp hplain).1 nofun
    refine ⟨List.forall_mem_cons.mpr ⟨?_, fun n hn => hf n (hbefore n hn)⟩, fun _ hcalling => ?_,
      nofun⟩
    · exact hbody.clean_wrap hplain (hinner.kind_mem hquiet kind) (hlast.setRole left) _ _ _ _
    · exact List.forall_mem_cons.mpr ⟨nofun, fun n hn => hcalling n (hbefore n hn)⟩
  | role _ ih => exact (ih hplain nofun).role hf
  | become => exact ⟨hf, fun _ => id, fun _ => id⟩

end Reading

/-! ## Sources -/

/-- The rules that give the label of names to identifiers only. A method may have any key for its
name. -/
def clear : Rule → Bool
  | .method _ => false
  | _ => true

theorem isPlainRule_rules (lang : Language) (r : Rule) : isPlainRule (rules lang) clear r = true := by
  cases lang <;> cases r <;>
    first
      | rfl
      | (rename_i place; cases place <;> rfl)
      | (rename_i place binding; cases place <;> cases binding <;> rfl)

/-- What is derived from the beginning of a source is plain. -/
theorem clean_of_derives {lang : Language} {c : Cursor} {f : Frame}
    (h : Derives (rules lang) (rule .program) ⟨c, [], none⟩ f) : f.Clean :=
  (h.reads (areQuiet_rules lang) (isPlainRule_rules lang) rfl nofun).clean

end Grammar

/-- **The trees of sources are plain.** -/
theorem Source.clean_root {text path : String} {s : Source} (h : Source.parse text path = .ok s) :
    s.root.Clean := by
  obtain ⟨f, hf, hroot⟩ := Source.derived_root h
  rw [hroot]
  refine Node.clean_of_other nofun rfl fun c hc => ?_
  exact (Grammar.clean_of_derives hf).passes f.passes_skip c (List.mem_reverse.mp hc)

end Transplant
