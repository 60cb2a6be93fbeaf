import Transplant.Proofs.Grammar.Names
import Transplant.Proofs.Text.Utf8
import Transplant.Source.Basic

/-!
# Derivations

`Peg.run` counts fuel, tries one choice after the other and remembers what rules have been found to
read.  None of this matters for what is read in the end.  `Derives` says what an expression may turn
a frame into, with neither fuel nor memory nor failed choices, and whatever `Peg.run` reads is
derived (`Peg.derived_run`).  So what is to be said of the trees of a grammar is said by induction
on derivations.

A derivation moves forward only.  Between two lexemes it passes over comments (`Frame.Passes`), and
it never looks at anything before the frame that it begins with, but for `wrap`, which takes the
node read last.  So the nodes that are read lie one behind the other, like beads on a string
(`Strung`).

What is remembered of a rule is known by the offset where it begins.  A derivation of a rule may
hence begin at another cursor, as long as this has the same offset and reads glyphs with a width.

* `Strung`: nodes that lie one behind the other
* `Frame.Passes`: one frame is another one behind some comments
* `Derives`: what an expression may turn a frame into
* `Derives.isWide`, `Derives.offset_le`: cursors of derivations
* `Peg.derived_run`: what is read is derived
* `Source.derived_root`: the tree of a source is derived
-/

namespace Transplant
namespace Grammar

open Utf8 (Glyph)

/-! ## Cursors -/

namespace Cursor

variable {c : Cursor} {n m : Nat}

/-- All glyphs from the cursor on have a width. -/
def IsWide (c : Cursor) : Prop := ∀ g ∈ c.rest, 0 < g.width

theorem forward_past {g : Glyph} {rest : List Glyph} (h : c.rest = g :: rest) :
    forward (n + 1) c = forward n (c.past g rest) := by
  rw [forward, h]

theorem rest_forward (n : Nat) (c : Cursor) : (forward n c).rest = c.rest.drop n := by
  induction n generalizing c with
  | zero => rfl
  | succ n ih =>
    cases hrest : c.rest with
    | nil => simp [forward, hrest]
    | cons g rest => rw [forward_past hrest, ih, past, List.drop_succ_cons]

theorem forward_forward (n m : Nat) (c : Cursor) : forward m (forward n c) = forward (n + m) c := by
  induction n generalizing c with
  | zero => rw [Nat.zero_add, forward]
  | succ n ih =>
    rw [Nat.add_right_comm]
    cases hrest : c.rest with
    | nil =>
      have hstay (k : Nat) : forward k c = c := by
        cases k with
        | zero => rfl
        | succ k => rw [forward, hrest]
      rw [hstay, hstay, hstay]
    | cons g rest => rw [forward_past hrest, forward_past hrest, ih]

/-- The place behind the next glyph, from a place that is itself so far ahead. -/
theorem past_forward {g : Glyph} {rest : List Glyph} (h : (forward n c).rest = g :: rest) :
    (forward n c).past g rest = forward (n + 1) c := by
  rw [← forward_forward, forward_past h, forward]

theorem offset_le_forward (n : Nat) (c : Cursor) : c.offset ≤ (forward n c).offset := by
  rw [offset_forward]
  omega

theorem IsWide.forward (h : c.IsWide) (n : Nat) : (forward n c).IsWide := by
  intro g hg
  rw [rest_forward] at hg
  exact h g (List.mem_of_mem_drop hg)

/-- The end of the source is as far as one can get. -/
theorem offset_forward_le (n : Nat) (c : Cursor) :
    (forward n c).offset ≤ (forward c.rest.length c).offset := by
  have hend : forward (c.rest.length + n) c = forward c.rest.length c := by
    rw [← forward_forward]
    cases n with
    | zero => rfl
    | succ n =>
      have hrest : (forward c.rest.length c).rest = [] := by rw [rest_forward, List.drop_length]
      rw [forward, hrest]
  rw [← hend, Nat.add_comm, ← forward_forward]
  exact offset_le_forward _ _

/-- A walk to an offset that lies ahead gets there. -/
theorem exists_walkTo {stop n : Nat} (h : stop ≤ (forward n c).offset) :
    ∃ m, walkTo stop c.rest.length c = forward m c ∧ stop ≤ (forward m c).offset := by
  have hwalk : ∀ (fuel : Nat) (d : Cursor), ∃ m, walkTo stop fuel d = forward m d ∧
      (stop ≤ (forward m d).offset ∨ m = fuel) := by
    intro fuel
    induction fuel with
    | zero => exact fun d => ⟨0, rfl, .inr rfl⟩
    | succ fuel ih =>
      intro d
      rw [walkTo]
      split
      · obtain ⟨m, hm, hreached⟩ := ih (forward 1 d)
        rw [forward_forward, Nat.add_comm] at hm hreached
        exact ⟨m + 1, hm, hreached.imp_right fun h => by rw [h]⟩
      · rename_i hreached
        exact ⟨0, rfl, .inl (Nat.not_lt.mp hreached)⟩
  obtain ⟨m, hm, hreached⟩ := hwalk c.rest.length c
  refine ⟨m, hm, hreached.elim id ?_⟩
  rintro rfl
  exact Nat.le_trans h (offset_forward_le n c)

end Cursor

/-! ## Nodes on a string -/

/-- Nodes, last first, that lie one behind the other between two offsets. -/
structure Strung (low high : Nat) (l : List Node) : Prop where
  bounded : ∀ n ∈ l, low ≤ n.start ∧ n.start ≤ n.stop ∧ n.stop ≤ high
  ordered : l.Pairwise fun a b => b.stop ≤ a.start

namespace Strung

variable {low middle high : Nat} {l l' : List Node}

theorem nil (low high : Nat) : Strung low high [] := ⟨nofun, .nil⟩

theorem append (h' : Strung middle high l') (h : Strung low middle l) (hlow : low ≤ middle)
    (hhigh : middle ≤ high) : Strung low high (l' ++ l) where
  bounded := by
    refine List.forall_mem_append.mpr ⟨fun n hn => ?_, fun n hn => ?_⟩
    · have := h'.bounded n hn
      omega
    · have := h.bounded n hn
      omega
  ordered := List.pairwise_append.mpr ⟨h'.ordered, h.ordered, fun a ha b hb =>
    Nat.le_trans (h.bounded b hb).2.2 (h'.bounded a ha).1⟩

theorem single {n : Node} (hlow : low ≤ n.start) (hn : n.start ≤ n.stop) (hhigh : n.stop ≤ high) :
    Strung low high [n] where
  bounded := List.forall_mem_singleton.mpr ⟨hlow, hn, hhigh⟩
  ordered := List.pairwise_singleton _ _

theorem cons {n : Node} (h : Strung low n.start l) (hlow : low ≤ n.start) (hn : n.start ≤ n.stop)
    (hhigh : n.stop ≤ high) : Strung low high (n :: l) :=
  (single (Nat.le_refl n.start) hn hhigh).append h hlow (Nat.le_trans hn hhigh)

end Strung

/-! ## Comments between lexemes -/

/-- A comment, as it is found between two lexemes. -/
def IsComment (n : Node) : Prop := n.kind = .comment ∧ n.role = none ∧ n.children = []

/-- Comments on the way from a place to another one, `n` glyphs further on, last first. -/
structure Comments (c : Cursor) (n : Nat) (l : List Node) : Prop where
  isComment : ∀ m ∈ l, IsComment m
  strung : Strung c.offset (Cursor.forward n c).offset l

namespace Comments

variable {c : Cursor} {n m : Nat} {l l' : List Node}

theorem nil (c : Cursor) (n : Nat) : Comments c n [] := ⟨nofun, .nil _ _⟩

theorem append (h : Comments c n l) (h' : Comments (Cursor.forward n c) m l') :
    Comments c (n + m) (l' ++ l) where
  isComment := List.forall_mem_append.mpr ⟨h'.isComment, h.isComment⟩
  strung := by
    rw [← Cursor.forward_forward]
    exact h'.strung.append h.strung (Cursor.offset_le_forward _ _) (Cursor.offset_le_forward _ _)

/-- A single comment that begins at the place. -/
theorem leafTo (c : Cursor) {k n : Nat} (h : k ≤ n) :
    Comments c n [c.leafTo .comment (Cursor.forward k c)] where
  isComment := List.forall_mem_singleton.mpr ⟨rfl, rfl, rfl⟩
  strung := by
    obtain ⟨d, rfl⟩ := Nat.exists_eq_add_of_le h
    refine .single (Nat.le_refl c.offset) (Cursor.offset_le_forward k c) ?_
    rw [← Cursor.forward_forward]
    exact Cursor.offset_le_forward d _

end Comments

/-- What is found on the way from a place: comments, in front of what there is. -/
def Found (c : Cursor) (found : List Node) (result : Cursor × List Node) : Prop :=
  ∃ n l, result = (Cursor.forward n c, l ++ found) ∧ Comments c n l

namespace Found

variable {c : Cursor} {found : List Node} {result : Cursor × List Node}

theorem here (c : Cursor) (found : List Node) : Found c found (c, found) := ⟨0, [], rfl, .nil c 0⟩

/-- What is found further on is found. -/
theorem later {n : Nat} {l : List Node} (hl : Comments c n l)
    (h : Found (Cursor.forward n c) (l ++ found) result) : Found c found result := by
  obtain ⟨m, l', rfl, hl'⟩ := h
  refine ⟨n + m, l' ++ l, ?_, hl.append hl'⟩
  rw [Cursor.forward_forward, List.append_assoc]

theorem ite {p : Prop} [Decidable p] {x y : Cursor × List Node} (hx : Found c found x)
    (hy : Found c found y) : Found c found (if p then x else y) := by
  split
  · exact hx
  · exact hy

end Found

/-- Whether a scan is at a place, `n` glyphs behind the cursor where it has begun or where it has
opened a comment. -/
def Gap.IsAt (c : Cursor) (n : Nat) : Gap → Prop
  | .blank => n = 0
  | .lineComment opened | .blockComment opened => opened = c

/-- Skipping a gap goes forward and finds the comments on the way. -/
theorem found_skipGap {c : Cursor} {n : Nat} (gap : Gap) (found : List Node) (hgap : gap.IsAt c n) :
    Found c found (skipGap gap (Cursor.forward n c) found (Cursor.forward n c).rest) := by
  -- the cases are those of the definition, which looks at two glyphs at once
  induction hlength : (Cursor.forward n c).rest.length using Nat.strongRecOn
    generalizing gap c n found
  rename_i k ih
  subst hlength
  have hnext : ∀ {gap : Gap} {d : Cursor} {m : Nat} {found : List Node} {g : Glyph}
      {rest : List Glyph}, (Cursor.forward n c).rest = g :: rest →
        Cursor.forward m d = Cursor.forward (n + 1) c → gap.IsAt d m →
          Found d found (skipGap gap ((Cursor.forward n c).past g rest) found rest) := by
    intro gap d m found g rest hrest hplace hgap
    have hpast := Cursor.past_forward hrest
    have hrest' : (Cursor.forward m d).rest = rest := by rw [hplace, ← hpast]; rfl
    have hstep := ih _ (by rw [hrest', hrest]; exact Nat.lt_succ_self _) gap found hgap rfl
    rwa [hrest', hplace, ← hpast] at hstep
  have hafter : ∀ {gap : Gap} {d : Cursor} {m : Nat} {found : List Node} {g h : Glyph}
      {more : List Glyph}, (Cursor.forward n c).rest = g :: h :: more →
        Cursor.forward m d = Cursor.forward (n + 2) c → gap.IsAt d m →
          Found d found (skipGap gap (((Cursor.forward n c).past g (h :: more)).past h more) found
            more) := by
    intro gap d m found g h more hrest hplace hgap
    have hpast := Cursor.past_forward hrest
    have hpast' := Cursor.past_forward (show (Cursor.forward (n + 1) c).rest = h :: more by
      rw [← hpast]; rfl)
    have hrest' : (Cursor.forward m d).rest = more := by rw [hplace, ← hpast']; rfl
    have hstep := ih _ (by
      rw [hrest', hrest, List.length_cons, List.length_cons]
      omega) gap found hgap rfl
    rwa [hrest', hplace, ← hpast', ← hpast] at hstep
  rcases hrest : (Cursor.forward n c).rest with _ | ⟨g, rest⟩
  · cases gap with
    | blank =>
      obtain rfl : n = 0 := hgap
      exact .here c found
    | lineComment opened =>
      obtain rfl : opened = c := hgap
      exact ⟨n, _, rfl, .leafTo opened (Nat.le_refl n)⟩
    | blockComment opened =>
      obtain rfl : opened = c := hgap
      exact .here opened found
  · cases gap with
    | blank =>
      obtain rfl : n = 0 := hgap
      have hblank : Found c found (skipGap .blank ((Cursor.forward 0 c).past g rest) found rest) :=
        .later (.nil c 1) (hnext hrest (m := 0) rfl rfl)
      cases rest with
      | nil =>
        exact .ite hblank (.ite (.here c found) (.here c found))
      | cons h more =>
        refine .ite hblank (.ite ?_ (.here c found))
        exact .ite (hafter hrest rfl rfl) (.ite (hafter hrest rfl rfl) (.here c found))
    | lineComment opened =>
      obtain rfl : opened = c := hgap
      refine .ite ?_ (hnext hrest rfl rfl)
      exact .later (.leafTo opened (Nat.le_succ n)) (hnext hrest (m := 0) rfl rfl)
    | blockComment opened =>
      obtain rfl : opened = c := hgap
      cases rest with
      | nil => exact .here opened found
      | cons h more =>
        have hpast := Cursor.past_forward hrest
        have hclosed : ((Cursor.forward n opened).past g (h :: more)).past h more =
            Cursor.forward (n + 2) opened := by
          rw [hpast, Cursor.past_forward (by rw [← hpast]; rfl)]
        have hblank (l : List Node) : Found (Cursor.forward (n + 2) opened) l
            (skipGap .blank (((Cursor.forward n opened).past g (h :: more)).past h more) l more) :=
          hafter hrest (m := 0) rfl rfl
        refine .ite ?_ (hnext hrest rfl rfl)
        rw [hclosed] at hblank ⊢
        exact .later (.leafTo opened (Nat.le_refl (n + 2))) (hblank _)

namespace Frame

/-- The frame `g` is the frame `f` further on, behind some comments. -/
def Passes (f g : Frame) : Prop :=
  ∃ n l, g = ⟨Cursor.forward n f.here, l ++ f.done, f.became⟩ ∧ Comments f.here n l

variable {f g h : Frame}

theorem Passes.refl (f : Frame) : f.Passes f := ⟨0, [], rfl, .nil f.here 0⟩

theorem Passes.trans (hfg : f.Passes g) (hgh : g.Passes h) : f.Passes h := by
  obtain ⟨n, l, rfl, hl⟩ := hfg
  obtain ⟨m, l', rfl, hl'⟩ := hgh
  refine ⟨n + m, l' ++ l, ?_, hl.append hl'⟩
  rw [Cursor.forward_forward, List.append_assoc]

theorem passes_skip (f : Frame) : f.Passes f.skip := by
  obtain ⟨n, l, hfound, hl⟩ := found_skipGap .blank f.done (show Gap.blank.IsAt f.here 0 from rfl)
  refine ⟨n, l, ?_, hl⟩
  unfold skip
  rw [show Cursor.forward 0 f.here = f.here from rfl] at hfound
  rw [hfound]

/-- A comment that follows a frame, which the search for the end of a statement goes behind. -/
theorem passes_comment {comment : Node} (h : f.comment? = some comment) :
    f.Passes { f with here := f.here.walkTo comment.stop f.here.rest.length,
                      done := comment :: f.done } := by
  obtain ⟨n, l, hskip, hl⟩ := passes_skip { f with done := [] }
  rw [comment?, hskip, List.append_nil] at h
  have hmem := List.mem_of_getLast? h
  obtain ⟨hlow, hcomment, hhigh⟩ := hl.strung.bounded comment hmem
  obtain ⟨m, hm, hreached⟩ := Cursor.exists_walkTo hhigh
  refine ⟨m, [comment], by rw [hm]; rfl, ⟨?_, .single hlow hcomment hreached⟩⟩
  exact List.forall_mem_singleton.mpr (hl.isComment comment hmem)

/-- A statement ends behind comments only. -/
theorem passes_ending {lang : Language} {ending : Ending} (fuel : Nat)
    (hg : f.ending? lang ending fuel = some g) : f.Passes g := by
  induction fuel generalizing f with
  | zero => cases hg
  | succ fuel ih =>
    rw [ending?] at hg
    split at hg
    · exact Option.some.inj hg ▸ .refl f
    · split at hg
      · cases hg
      · rename_i comment hcomment
        exact (passes_comment hcomment).trans (ih hg)

theorem Passes.mem {n : Node} (h : f.Passes g) (hn : n ∈ g.done) : n ∈ f.done ∨ IsComment n := by
  obtain ⟨k, l, rfl, hl⟩ := h
  exact (List.mem_append.mp hn).elim (fun hn => .inr (hl.isComment n hn)) .inl

theorem Passes.isWide (h : f.Passes g) (hf : f.here.IsWide) : g.here.IsWide := by
  obtain ⟨n, comments, rfl, -⟩ := h
  exact hf.forward n

theorem Passes.offset_le (h : f.Passes g) : f.here.offset ≤ g.here.offset := by
  obtain ⟨n, comments, rfl, -⟩ := h
  exact Cursor.offset_le_forward n f.here

/-! ## What is made -/

/-- The frame with one more leaf, of so many glyphs. -/
def withLeaf (f : Frame) (kind : Kind) (n : Nat) : Frame :=
  { f with here := Cursor.forward n f.here,
           done := f.here.leafTo kind (Cursor.forward n f.here) :: f.done }

/-- The node around what has been read from the frame on. -/
def nodeOf (f : Frame) (kind : Kind) (inner : Frame) : Node :=
  ⟨inner.became.getD kind, none, f.here.offset, inner.here.offset, f.here.line,
    f.here.textTo inner.here.offset, inner.done.reverse⟩

/-- The node around the last one and what has been read from the frame on. -/
def wrapOf (f : Frame) (last : Node) (kind : Kind) (left : Option Role) (inner : Frame) : Node :=
  ⟨inner.became.getD kind, none, last.start, inner.here.offset, last.line,
    last.text ++ f.here.textTo inner.here.offset, { last with role := left } :: inner.done.reverse⟩

/-- The node with a label, unless it is a comment. -/
def label (r : Role) (n : Node) : Node := if n.kind == .comment then n else n.inRole r

end Frame

/-! ## Derivations -/

section Derivations

variable {R : Type}

/-- Whether an expression may read nothing but comments, whatever it is made of. -/
def Peg.mayPass : Peg R → Bool
  | .empty | .many _ | .unless _ | .lastIs _ | .lastHas _ | .ends _ _ => true
  | _ => false

/-- What an expression may turn a frame into. -/
inductive Derives (rules : R → Peg R) : Peg R → Frame → Frame → Prop where
  | pass {e : Peg R} {f g : Frame} (hpass : e.mayPass = true) (hg : f.Passes g) : Derives rules e f g
  | leaf {kind : Kind} {lexeme : Lexeme} {f g : Frame} {n : Nat} (hg : f.Passes g)
      (hscan : lexeme.scan g.here.rest = some n) :
      Derives rules (.leaf kind lexeme) f (g.withLeaf kind n)
  | seq {a b : Peg R} {f g h : Frame} (ha : Derives rules a f g) (hb : Derives rules b g h) :
      Derives rules (.seq a b) f h
  | left {a b : Peg R} {f g : Frame} (ha : Derives rules a f g) : Derives rules (.alt a b) f g
  | right {a b : Peg R} {f g : Frame} (hb : Derives rules b f g) : Derives rules (.alt a b) f g
  | more {a : Peg R} {f g h : Frame} (ha : Derives rules a f g)
      (hrest : Derives rules (.many a) g h) : Derives rules (.many a) f h
  | ref {r : R} {f inner : Frame} (c : Cursor) (hoffset : c.offset = f.here.offset)
      (hwide : c.IsWide) (hinner : Derives rules (rules r) ⟨c, [], none⟩ inner) :
      Derives rules (.ref r) f (f.join inner)
  | node {kind : Kind} {a : Peg R} {f g inner : Frame} (hg : f.Passes g)
      (hinner : Derives rules a ⟨g.here, [], none⟩ inner) :
      Derives rules (.node kind a) f
        { g with here := inner.here, done := g.nodeOf kind inner :: g.done }
  | wrap {kind : Kind} {left : Option Role} {a : Peg R} {f inner : Frame} {last : Node}
      {before : List Node} (hdone : f.done = last :: before)
      (hinner : Derives rules a ⟨f.here, [], none⟩ inner) :
      Derives rules (.wrap kind left a) f
        { f with here := inner.here, done := f.wrapOf last kind left inner :: before }
  | role {r : Role} {a : Peg R} {f inner : Frame}
      (hinner : Derives rules a { f with done := [] } inner) :
      Derives rules (.role r a) f
        { inner with done := inner.done.map (Frame.label r) ++ f.done }
  | become {kind : Kind} {f : Frame} : Derives rules (.become kind) f { f with became := some kind }

variable {rules : R → Peg R} {e a b : Peg R} {f g : Frame}

theorem Derives.refl (h : e.mayPass = true) : Derives rules e f f := .pass h (.refl f)

/-- A derivation keeps the widths of glyphs. -/
theorem Derives.isWide (h : Derives rules e f g) (hf : f.here.IsWide) : g.here.IsWide := by
  induction h with
  | pass _ hg => exact hg.isWide hf
  | leaf hg _ => exact (hg.isWide hf).forward _
  | seq _ _ iha ihb => exact ihb (iha hf)
  | left _ ih | right _ ih | wrap _ _ ih | role _ ih => exact ih hf
  | more _ _ iha ihrest => exact ihrest (iha hf)
  | ref c _ hwide _ ih => exact ih hwide
  | node hg _ ih => exact ih (hg.isWide hf)
  | become => exact hf

/-- A derivation goes forward. -/
theorem Derives.offset_le (h : Derives rules e f g) : f.here.offset ≤ g.here.offset := by
  induction h with
  | pass _ hg => exact hg.offset_le
  | leaf hg _ => exact Nat.le_trans hg.offset_le (Cursor.offset_le_forward _ _)
  | seq _ _ iha ihb => exact Nat.le_trans iha ihb
  | left _ ih | right _ ih | wrap _ _ ih | role _ ih => exact ih
  | more _ _ iha ihrest => exact Nat.le_trans iha ihrest
  | ref c hoffset _ _ ih => exact hoffset ▸ ih
  | node hg _ ih => exact Nat.le_trans hg.offset_le ih
  | become => exact Nat.le_refl _

/-! ### What the node around becomes -/

/-- The kinds that reading an expression may turn the node around it into, if no rule does. -/
def Peg.becomes : Peg R → List Kind
  | .seq a b | .alt a b => a.becomes ++ b.becomes
  | .many a | .role _ a => a.becomes
  | .become kind => [kind]
  | _ => []

/-- Rules do not change the node around them. -/
def AreQuiet (rules : R → Peg R) : Prop := ∀ r, (rules r).becomes = []

theorem Derives.became (hrules : AreQuiet rules) (h : Derives rules e f g) {kind : Kind}
    (hkind : g.became = some kind) : f.became = some kind ∨ kind ∈ e.becomes := by
  induction h with
  | pass _ hg | leaf hg _ | node hg _ =>
    obtain ⟨n, l, rfl, -⟩ := hg
    exact .inl hkind
  | seq _ _ iha ihb =>
    rcases ihb hkind with h | h
    · exact (iha h).imp_right (List.mem_append_left _)
    · exact .inr (List.mem_append_right _ h)
  | left _ ih => exact (ih hkind).imp_right (List.mem_append_left _)
  | right _ ih => exact (ih hkind).imp_right (List.mem_append_right _)
  | more _ _ iha ihrest => exact (ihrest hkind).elim iha .inr
  | @ref r f inner c _ _ _ ih =>
    cases hinner : inner.became with
    | none => exact .inl (by rwa [Frame.join, hinner] at hkind)
    | some other =>
      obtain rfl : other = kind := by simpa [Frame.join, hinner] using hkind
      rcases ih hinner with h | h
      · cases h
      · rw [hrules r] at h
        cases h
  | wrap => exact .inl hkind
  | role _ ih => exact ih hkind
  | become => exact .inr (List.mem_singleton.mpr (Option.some.inj hkind).symm)

/-- The kind of a node that is made: its own, or what reading its body has turned it into. -/
theorem Derives.kind_mem (hrules : AreQuiet rules) {c : Cursor} {inner : Frame}
    (h : Derives rules a ⟨c, [], none⟩ inner) (kind : Kind) :
    inner.became.getD kind ∈ kind :: a.becomes := by
  cases hkind : inner.became with
  | none => exact List.mem_cons_self
  | some other =>
    rcases h.became hrules hkind with hnone | hmem
    · cases hnone
    · exact List.mem_cons_of_mem _ hmem

/-! ### What is remembered -/

/-- What is remembered of rules is derived, from the offsets that it is remembered for. -/
def Memory.Derived (rules : R → Peg R) (m : Memory R) : Prop :=
  ∀ offset : Nat, ∀ finding ∈ m.findings[offset]?.getD [], ∀ g, finding.answer = some g →
    ∃ c : Cursor, c.offset = offset ∧ c.IsWide ∧ Derives rules (rules finding.rule) ⟨c, [], none⟩ g

/-- A reply to an expression: what is remembered is derived, and so is what has been read. -/
def Reply.Derived (rules : R → Peg R) (e : Peg R) (f : Frame) (reply : Reply R) : Prop :=
  reply.2.Derived rules ∧ ∀ g, reply.1 = some g → Derives rules e f g

theorem Reply.derived_none {memory : Memory R} (h : memory.Derived rules) :
    Reply.Derived rules e f (none, memory) :=
  ⟨h, nofun⟩

theorem Reply.derived_some {memory : Memory R} (h : memory.Derived rules)
    (hg : Derives rules e f g) : Reply.Derived rules e f (some g, memory) :=
  ⟨h, fun _ hsome => Option.some.inj hsome ▸ hg⟩

/-- What comes of going on after a reply, whether something has been read or not. -/
theorem Reply.Derived.elim {reply : Reply R} {f' : Frame} {no : Memory R → Reply R}
    {yes : Frame → Memory R → Reply R} :
    reply.Derived rules a f → (∀ m : Memory R, m.Derived rules → (no m).Derived rules e f') →
      (∀ g, ∀ m : Memory R, m.Derived rules → Derives rules a f g →
        (yes g m).Derived rules e f') →
        Reply.Derived rules e f' (match reply with
          | (none, m) => no m
          | (some g, m) => yes g m) := by
  intro h hno hyes
  obtain ⟨answer, m⟩ := reply
  cases answer with
  | none => exact hno m h.1
  | some g => exact hyes g m h.1 (h.2 g rfl)

variable {memory : Memory R}

theorem Memory.derived_start (size : Nat) : (Memory.start size : Memory R).Derived rules := by
  intro offset finding hfinding
  simp only [Memory.start, Array.getElem?_replicate] at hfinding
  split at hfinding <;> cases hfinding

theorem Memory.Derived.record (h : memory.Derived rules) {r : R} (c : Cursor)
    {answer : Option Frame} (hwide : c.IsWide)
    (hanswer : ∀ g, answer = some g → Derives rules (rules r) ⟨c, [], none⟩ g) :
    (memory.record r c.offset answer).Derived rules := by
  intro i finding hfinding
  simp only [Memory.record, Array.getElem?_modify] at hfinding
  split at hfinding
  next hplace =>
    cases hfound : memory.findings[i]? with
    | none =>
      rw [hfound] at hfinding
      cases hfinding
    | some l =>
      rw [hfound] at hfinding
      rcases List.mem_cons.mp hfinding with rfl | hmem
      · exact fun g hg => ⟨c, hplace, hwide, hanswer g hg⟩
      · exact h i finding (by rw [hfound]; exact hmem)
  next => exact h i finding hfinding

variable [DecidableEq R]

theorem Memory.Derived.known? (h : memory.Derived rules) {r : R} {offset : Nat} {g : Frame}
    (hg : memory.known? r offset = some (some g)) :
    ∃ c : Cursor, c.offset = offset ∧ c.IsWide ∧ Derives rules (rules r) ⟨c, [], none⟩ g := by
  obtain ⟨finding, hfind, hanswer⟩ := Option.map_eq_some_iff.mp hg
  have hrule : finding.rule = r := by simpa using List.find?_some hfind
  exact hrule ▸ h offset finding (List.mem_of_find?_eq_some hfind) g hanswer

/-! ### Runs

What comes of running an expression, one constructor after the other.  With one unit of fuel less,
what its parts read is known to be derived. -/

theorem Frame.derived_leaf {kind : Kind} {lexeme : Lexeme} (hm : memory.Derived rules) :
    Reply.Derived rules (.leaf kind lexeme) f (f.leaf kind lexeme memory) := by
  have hpasses : f.Passes (if lexeme.isImmediate then f else f.skip) := by
    split
    · exact .refl f
    · exact f.passes_skip
  unfold Frame.leaf
  dsimp only
  split
  · exact Reply.derived_none hm
  · rename_i n hscan
    exact Reply.derived_some hm (.leaf hpasses hscan)

/-- A rule, at an offset where it may be known what comes of it. -/
theorem Frame.derived_ref {r : R} {body : Reply R} (hwide : f.here.IsWide)
    (hm : memory.Derived rules) (hbody : body.Derived rules (rules r) ⟨f.here, [], none⟩) :
    Reply.Derived rules (.ref r) f (match memory.known? r f.here.offset with
      | some answer => (answer.map f.join, memory)
      | none => (body.1.map f.join, body.2.record r f.here.offset body.1)) := by
  split
  · rename_i answer hknown
    refine ⟨hm, fun g hg => ?_⟩
    obtain ⟨inner, rfl, rfl⟩ := Option.map_eq_some_iff.mp hg
    obtain ⟨c, hoffset, hc, hinner⟩ := hm.known? hknown
    exact .ref c hoffset hc hinner
  · refine ⟨hbody.1.record f.here hwide hbody.2, fun g hg => ?_⟩
    obtain ⟨inner, hinner, rfl⟩ := Option.map_eq_some_iff.mp hg
    exact .ref f.here rfl hwide (hbody.2 inner hinner)

omit [DecidableEq R] in
theorem Frame.derived_ends {lang : Language} {ending : Ending} (fuel : Nat)
    (hm : memory.Derived rules) :
    Reply.Derived rules (.ends lang ending) f (match f.ending? lang ending fuel with
      | some g => (some g, memory)
      | none => (none, memory.visit f.here)) := by
  split
  · rename_i g hg
    exact Reply.derived_some hm (.pass rfl (Frame.passes_ending fuel hg))
  · exact Reply.derived_none hm

/-- **What is read is derived.** -/
theorem Peg.derived_run (fuel : Nat) (e : Peg R) {f : Frame} (hwide : f.here.IsWide)
    (hm : memory.Derived rules) : Reply.Derived rules e f (Peg.run rules fuel e f memory) := by
  induction fuel generalizing e f memory with
  | zero => exact Reply.derived_none hm
  | succ fuel ih =>
    have hkeep : ∀ {e : Peg R} {f : Frame}, e.mayPass = true → ∀ holds : Bool,
        Reply.Derived rules e f (if holds then (some f, memory) else (none, memory)) := by
      intro e f hpass holds
      cases holds
      · exact Reply.derived_none hm
      · exact Reply.derived_some hm (.refl hpass)
    cases e with
    | empty => exact Reply.derived_some hm (.refl rfl)
    | leaf kind lexeme => exact Frame.derived_leaf hm
    | seq a b =>
      refine (ih a hwide hm).elim (fun m hm => Reply.derived_none hm) fun g m hm ha => ?_
      have hb := ih b (ha.isWide hwide) hm
      exact ⟨hb.1, fun h hh => .seq ha (hb.2 h hh)⟩
    | alt a b =>
      refine (ih a hwide hm).elim (fun m hm => ?_) fun g m hm ha =>
        Reply.derived_some hm (.left ha)
      have hb := ih b hwide hm
      exact ⟨hb.1, fun g hg => .right (hb.2 g hg)⟩
    | many a =>
      refine (ih a hwide hm).elim (fun m hm => Reply.derived_some hm (.refl rfl))
        fun g m hm ha => ?_
      split
      · exact Reply.derived_some hm (.refl rfl)
      · have hrest := ih (.many a) (ha.isWide hwide) hm
        exact ⟨hrest.1, fun h hh => .more ha (hrest.2 h hh)⟩
    | ref r =>
      exact Frame.derived_ref hwide hm (ih (rules r) (f := ⟨f.here, [], none⟩) hwide hm)
    | node kind a =>
      have hskip := f.passes_skip
      exact (ih a (f := ⟨f.skip.here, [], none⟩) (hskip.isWide hwide) hm).elim
        (fun m hm => Reply.derived_none hm) fun inner m hm ha =>
          Reply.derived_some hm (.node hskip ha)
    | wrap kind left a =>
      obtain ⟨here, done, became⟩ := f
      cases done with
      | nil => exact Reply.derived_none hm
      | cons last before =>
        exact (ih a (f := ⟨here, [], none⟩) hwide hm).elim (fun m hm => Reply.derived_none hm)
          fun inner m hm ha => Reply.derived_some hm (.wrap rfl ha)
    | role r a =>
      exact (ih a (f := { f with done := [] }) hwide hm).elim (fun m hm => Reply.derived_none hm)
        fun inner m hm ha => Reply.derived_some hm (.role ha)
    | «unless» a =>
      exact (ih a hwide hm).elim (fun m hm => Reply.derived_some hm (.refl rfl))
        fun g m hm _ => Reply.derived_none hm
    | lastIs kinds =>
      obtain ⟨here, done, became⟩ := f
      cases done with
      | nil => exact Reply.derived_none hm
      | cons last before => exact hkeep rfl (kinds.contains last.kind)
    | lastHas r =>
      obtain ⟨here, done, became⟩ := f
      cases done with
      | nil => exact Reply.derived_none hm
      | cons last before => exact hkeep rfl (last.child? r).isSome
    | become kind => exact Reply.derived_some hm .become
    | ends lang ending => exact Frame.derived_ends fuel hm

end Derivations

/-! ## Sources -/

theorem areQuiet_rules (lang : Language) : AreQuiet (rules lang) := by
  intro r
  cases lang <;> cases r <;>
    first
      | rfl
      | (rename_i place; cases place <;> rfl)
      | (rename_i place binding; cases place <;> cases binding <;> rfl)

/-- A tree that has been read is derived. -/
theorem derived_attempt {lang : Language} {source : List Glyph} {tree : Node}
    (hwide : ∀ g ∈ source, 0 < g.width) (h : (attempt lang source).tree = some tree) :
    ∃ f, Derives (rules lang) (rule .program) ⟨beginning source, [], none⟩ f ∧
      tree = root source f.skip.done f.skip.here := by
  have hrun : Reply.Derived (rules lang) (rule .program) ⟨beginning source, [], none⟩ _ :=
    Peg.derived_run (fuelFor source.length) (rule .program) hwide
      (Memory.derived_start (widthOf source))
  unfold attempt at h
  dsimp only at h
  split at h <;> rename_i hfound <;> rw [hfound] at hrun
  · cases h
  · split at h
    · exact ⟨_, hrun.2 _ rfl, (Option.some.inj h).symm⟩
    · cases h

end Grammar

namespace Utf8

theorem width_pos_of_head {a : Nat} {rest : List Nat} {c : Char} {width : Nat}
    (h : head a rest = .char c width) : 0 < width := by
  obtain ⟨-, -, rfl⟩ | ⟨-, _, _, -, -, -, rfl⟩ | ⟨-, _, _, _, -, -, -, -, rfl⟩ |
    ⟨-, _, _, _, _, -, -, -, -, -, rfl⟩ := head_eq_char_iff.mp h <;> decide

theorem width_pos_of_mem_glyphsFrom {skip : Nat} {bytes : Bytes} {g : Glyph}
    (h : g ∈ glyphsFrom skip bytes) : 0 < g.width := by
  induction bytes generalizing skip with
  | nil => cases h
  | cons b rest ih =>
    cases skip with
    | succ skip => exact ih h
    | zero =>
      rw [glyphsFrom] at h
      split at h
      · rename_i hhead
        rcases List.mem_cons.mp h with rfl | h
        · exact width_pos_of_head hhead
        · exact ih h
      · rcases List.mem_cons.mp h with rfl | h
        · exact Nat.one_pos
        · exact ih h

/-- Every glyph of a source takes a byte or more. -/
theorem width_pos_of_mem_glyphs {bytes : Bytes} {g : Glyph} (h : g ∈ glyphs bytes) : 0 < g.width :=
  width_pos_of_mem_glyphsFrom h

end Utf8

namespace Source

/-- The tree of a source is derived from its bytes. -/
theorem derived_root {bytes : Bytes} {path : String} {language : Language} {s : Source}
    (h : ofBytes bytes path language = .ok s) :
    ∃ f, Grammar.Derives (Grammar.rules language) (Grammar.rule .program)
        ⟨Grammar.beginning (Utf8.glyphs bytes), [], none⟩ f ∧
      s.root = Grammar.root (Utf8.glyphs bytes) f.skip.done f.skip.here := by
  unfold ofBytes Grammar.parse at h
  split at h
  · rename_i root hroot
    rw [← Except.ok.inj h]
    dsimp only at hroot
    split at hroot
    · rename_i tree htree
      rw [← Except.ok.inj hroot]
      exact Grammar.derived_attempt (fun g => Utf8.width_pos_of_mem_glyphs) htree
    · cases hroot
  · cases h

end Source
end Transplant
