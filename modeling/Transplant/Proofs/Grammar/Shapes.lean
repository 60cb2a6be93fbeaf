import Transplant.Proofs.Grammar.Derivations
import Transplant.Proofs.Grammar.Layout

/-!
# The trees of sources are well formed

`Node.WellFormed` says of a tree that ranges are nested and that some kinds of nodes are made as one
expects.  Both can be seen from the grammar without running it.

That ranges are nested is true of any grammar, since a derivation moves forward only
(`Derives.strung`).  The rest is checked by looking at the expressions (`Peg.forms`).  The check
wants to know four things of an expression.

* Whether it gets ahead: an expression *eats* if it reads a glyph or more in any case.
* Whether it leaves alone what has been read before.  An expression behaves like a piece of code on
  a stack.  Most push a node, and `wrap` takes the top one and pushes another.  With its `height?`
  known to be enough, an expression neither sees nor changes what lies below (`Derives.above`).
* Whether it reads one node, of a known kind (`Peg.makes`).
* Whether it reads leaves only (`Peg.isLeafy`).

So the names of attributes come first because what is read behind them does not take them, and the
members of an object pattern stand between its braces because both braces are eaten and neither is
taken.

* `Peg.eats`, `Peg.height?`, `Peg.makes`, `Peg.isLeafy`: what is known of an expression
* `Peg.forms`: what is checked
* `Derives.sound`: what passes the check reads well formed trees
* `Source.wellFormed_root`: the trees of sources are well formed
-/

namespace Transplant
namespace Grammar

open Utf8 (Glyph)

/-! ## Lexemes that are never empty -/

/-- Whether a lexeme is never empty. -/
def Lexeme.isSolid : Lexeme → Bool
  | .word (_ :: _) | .mark (_ :: _) | .exact (_ :: _) | .name _ | .string | .attributeString => true
  | _ => false

theorem lt_of_stringRest {quote : Char} {skipped len n : Nat} {input : List Glyph}
    (h : stringRest quote skipped len input = some n) : len < n := by
  induction input generalizing skipped len with
  | nil => cases h
  | cons g rest ih =>
    have hlater : ∀ {skipped : Nat}, stringRest quote skipped (len + 1) rest = some n → len < n :=
      fun h => Nat.lt_of_succ_lt (ih h)
    rw [stringRest] at h
    split at h
    · exact hlater h
    split at h
    · exact Option.some.inj h ▸ Nat.lt_succ_self len
    split at h
    · cases h
    split at h
    · split at h
      · cases h
      · exact hlater h
    · exact hlater h

theorem lt_of_attributeStringRest {quote : Char} {skipped len n : Nat} {input : List Glyph}
    (h : attributeStringRest quote skipped len input = some n) : len < n := by
  -- a character behind an ampersand is taken together with it
  induction hlength : input.length using Nat.strongRecOn generalizing skipped len input
  rename_i k ih
  subst hlength
  have hlater : ∀ {skipped m : Nat} {more : List Glyph}, more.length < input.length → len < m →
      attributeStringRest quote skipped m more = some n → len < n :=
    fun hshort hm h => Nat.lt_trans hm (ih _ hshort h rfl)
  cases input with
  | nil => cases h
  | cons g rest =>
    have hshort : rest.length < (g :: rest).length := Nat.lt_succ_self _
    rw [attributeStringRest.eq_def] at h
    dsimp only at h
    split at h
    · exact hlater hshort (Nat.lt_succ_self len) h
    split at h
    · exact Option.some.inj h ▸ Nat.lt_succ_self len
    split at h
    · cases rest with
      | nil => cases h
      | cons next more =>
        dsimp only at h
        split at h
        · split at h
          · cases h
          · exact hlater hshort (Nat.lt_succ_self len) h
        · exact hlater (Nat.lt_trans (Nat.lt_succ_self _) hshort) (by omega) h
    · exact hlater hshort (Nat.lt_succ_self len) h

theorem leads_nil {c : Char} {chars : List Char} : leads (c :: chars) [] = false := rfl

/-- A lexeme that is never empty takes a glyph, and there is one. -/
theorem Lexeme.pos_of_scan {lexeme : Lexeme} (h : lexeme.isSolid = true) {input : List Glyph}
    {n : Nat} (hscan : lexeme.scan input = some n) : input ≠ [] ∧ 0 < n := by
  cases lexeme with
  | word chars =>
    cases chars with
    | nil => cases h
    | cons c chars =>
      rw [scan] at hscan
      split at hscan
      · rename_i hname
        refine ⟨?_, Option.some.inj hscan ▸ Nat.succ_pos _⟩
        rintro rfl
        cases hname
      · cases hscan
  | mark chars | exact chars =>
    cases chars with
    | nil => cases h
    | cons c chars =>
      rw [scan] at hscan
      split at hscan
      · rename_i hleads
        refine ⟨?_, Option.some.inj hscan ▸ Nat.succ_pos _⟩
        rintro rfl
        simp [leads_nil] at hleads
      · cases hscan
  | name barred =>
    rw [scan] at hscan
    split at hscan
    · cases hscan
    · rename_i hname
      rw [Bool.or_eq_true, not_or, List.isEmpty_iff] at hname
      refine ⟨?_, Option.some.inj hscan ▸ List.length_pos_iff.mpr hname.1⟩
      rintro rfl
      exact hname.1 rfl
  | string =>
    cases input with
    | nil => cases hscan
    | cons g rest =>
      rw [scan, stringAt] at hscan
      split at hscan
      · exact ⟨List.cons_ne_nil _ _, Nat.zero_lt_of_lt (lt_of_stringRest hscan)⟩
      · cases hscan
  | attributeString =>
    cases input with
    | nil => cases hscan
    | cons g rest =>
      rw [scan, attributeStringAt] at hscan
      split at hscan
      · exact ⟨List.cons_ne_nil _ _, Nat.zero_lt_of_lt (lt_of_attributeStringRest hscan)⟩
      · cases hscan
  | _ => cases h

theorem Cursor.IsWide.offset_lt {c : Cursor} (h : c.IsWide) {n : Nat} (hrest : c.rest ≠ [])
    (hn : 0 < n) : c.offset < (Cursor.forward n c).offset := by
  obtain ⟨g, rest, hcons⟩ := List.exists_cons_of_ne_nil hrest
  obtain ⟨n, rfl⟩ := Nat.exists_eq_add_of_lt hn
  have hwidth := h g (hcons ▸ List.mem_cons_self)
  have hle := offset_le_forward n (c.past g rest)
  rw [Nat.zero_add, forward_past hcons]
  exact Nat.lt_of_lt_of_le (Nat.lt_add_of_pos_right hwidth) hle

section Shapes

variable {R : Type} {rules : R → Peg R} {e a b : Peg R} {f g inner : Frame}

/-! ## Getting ahead -/

/-- Whether an expression reads a glyph or more, whatever the rules read. -/
def Peg.eats : Peg R → Bool
  | .leaf _ lexeme => lexeme.isSolid
  | .seq a b => a.eats || b.eats
  | .alt a b => a.eats && b.eats
  | .node _ a | .wrap _ _ a | .role _ a => a.eats
  | _ => false

theorem Derives.offset_lt (h : Derives rules e f g) (he : e.eats = true) (hwide : f.here.IsWide) :
    f.here.offset < g.here.offset := by
  induction h with
  | @pass e f g hpass hg => cases e <;> first | cases he | cases hpass
  | leaf hg hscan =>
    obtain ⟨hrest, hn⟩ := Lexeme.pos_of_scan he hscan
    exact Nat.lt_of_le_of_lt hg.offset_le ((hg.isWide hwide).offset_lt hrest hn)
  | seq ha hb iha ihb =>
    rcases Bool.or_eq_true_iff.mp he with he | he
    · exact Nat.lt_of_lt_of_le (iha he hwide) hb.offset_le
    · exact Nat.lt_of_le_of_lt ha.offset_le (ihb he (ha.isWide hwide))
  | left _ ih => exact ih (Bool.and_eq_true_iff.mp he).1 hwide
  | right _ ih => exact ih (Bool.and_eq_true_iff.mp he).2 hwide
  | node hg _ ih => exact Nat.lt_of_le_of_lt hg.offset_le (ih he (hg.isWide hwide))
  | wrap _ _ ih | role _ ih => exact ih he hwide
  | more | ref | become => cases he

/-! ## Nodes one behind the other -/

theorem Strung.passes {low : Nat} (hf : Strung low f.here.offset f.done)
    (hlow : low ≤ f.here.offset) (h : f.Passes g) : Strung low g.here.offset g.done := by
  obtain ⟨n, l, rfl, hl⟩ := h
  exact hl.strung.append hf hlow (Cursor.offset_le_forward n f.here)

theorem strung_label {low high : Nat} {l : List Node} (r : Role) (h : Strung low high l) :
    Strung low high (l.map (Frame.label r)) := by
  have hplace (n : Node) : (Frame.label r n).start = n.start ∧ (Frame.label r n).stop = n.stop := by
    unfold Frame.label
    split <;> exact ⟨rfl, rfl⟩
  refine ⟨fun n hn => ?_, List.pairwise_map.mpr (h.ordered.imp fun {m n} hmn => ?_)⟩
  · obtain ⟨m, hm, rfl⟩ := List.mem_map.mp hn
    rw [(hplace m).1, (hplace m).2]
    exact h.bounded m hm
  · rw [(hplace m).1, (hplace n).2]
    exact hmn

/-- **The nodes that are read lie one behind the other.** -/
theorem Derives.strung (h : Derives rules e f g) {low : Nat} (hlow : low ≤ f.here.offset)
    (hf : Strung low f.here.offset f.done) : Strung low g.here.offset g.done := by
  induction h generalizing low with
  | pass _ hg => exact hf.passes hlow hg
  | @leaf kind _ f g n hg _ =>
    have hle := Cursor.offset_le_forward n g.here
    have hleaf : Strung g.here.offset (g.withLeaf kind n).here.offset
        [g.here.leafTo kind (Cursor.forward n g.here)] :=
      .single (Nat.le_refl _) hle (Nat.le_refl _)
    exact hleaf.append (hf.passes hlow hg) (Nat.le_trans hlow hg.offset_le) hle
  | seq ha _ iha ihb => exact ihb (Nat.le_trans hlow ha.offset_le) (iha hlow hf)
  | left _ ih | right _ ih => exact ih hlow hf
  | more ha _ iha ihrest => exact ihrest (Nat.le_trans hlow ha.offset_le) (iha hlow hf)
  | @ref r f inner c hoffset _ hinner ih =>
    have hle := hinner.offset_le
    rw [← hoffset] at hf hlow
    exact (ih (Nat.le_refl _) (.nil _ _)).append hf hlow hle
  | @node kind a f g inner hg hinner _ =>
    have hnode : Strung g.here.offset inner.here.offset [g.nodeOf kind inner] :=
      .single (Nat.le_refl _) hinner.offset_le (Nat.le_refl _)
    exact hnode.append (hf.passes hlow hg) (Nat.le_trans hlow hg.offset_le) hinner.offset_le
  | @wrap kind left a f inner last before hdone hinner _ =>
    rw [hdone] at hf
    obtain ⟨hlast, hbefore⟩ := List.forall_mem_cons.mp hf.bounded
    obtain ⟨hordered, hrest⟩ := List.pairwise_cons.mp hf.ordered
    have hle := hinner.offset_le
    refine .cons ⟨fun n hn => ?_, hrest⟩ hlast.1 ?_ (Nat.le_refl _)
    · have hn' := hbefore n hn
      exact ⟨hn'.1, hn'.2.1, hordered n hn⟩
    · exact Nat.le_trans (Nat.le_trans hlast.2.1 hlast.2.2) hle
  | role hinner ih =>
    have hbody := ih (Nat.le_refl _) (.nil _ _)
    exact (strung_label _ hbody).append hf hlow hinner.offset_le
  | become => exact hf

/-! ## What lies below -/

/-- Whether an expression is a node. -/
def Peg.isNode : Peg R → Bool
  | .node _ _ => true
  | _ => false

/-- How many nodes there are at least when an expression has been read behind `h` nodes, if these are
enough for all that it takes. -/
def Peg.height? (rules : R → Peg R) : Peg R → Nat → Option Nat
  | .leaf _ _, h | .node _ _, h => some (h + 1)
  | .seq a b, h => (a.height? rules h).bind (b.height? rules)
  | .alt a b, h => (a.height? rules h).bind fun m => (b.height? rules h).map (min m)
  | .many a, h => (a.height? rules h).bind fun m => if h ≤ m then some h else none
  | .ref r, h => some (if (rules r).isNode then h + 1 else h)
  | .wrap _ _ _, h => if h = 0 then none else some h
  | _, h => some h

theorem Peg.height?_of_mayPass (h : e.mayPass = true) {n k : Nat}
    (hk : e.height? rules n = some k) : k = n := by
  cases e with
  | many a =>
    obtain ⟨m, -, hm⟩ := Option.bind_eq_some_iff.mp hk
    split at hm
    · exact (Option.some.inj hm).symm
    · cases hm
  | _ => first | exact (Option.some.inj hk).symm | cases h

theorem Derives.done_ne_nil {c : Cursor} (he : e.isNode = true)
    (h : Derives rules e ⟨c, [], none⟩ g) : g.done ≠ [] := by
  cases e with
  | node kind a =>
    cases h with
    | pass hpass => cases hpass
    | node => exact List.cons_ne_nil _ _
  | _ => cases he

/-- A frame that keeps what lies below, and has derived the rest without it. -/
structure Above (rules : R → Peg R) (e : Peg R) (f g : Frame) (l rest : List Node) (k : Nat)
    (l' : List Node) : Prop where
  done : g.done = l' ++ rest
  length : k ≤ l'.length
  derives : Derives rules e { f with done := l } { g with done := l' }

/-- **What lies below is left alone.**  With nodes enough for all that it takes, an expression reads
the same whether there are others below or not. -/
theorem Derives.above (h : Derives rules e f g) {n k : Nat} (hk : e.height? rules n = some k)
    {l rest : List Node} (hdone : f.done = l ++ rest) (hn : n ≤ l.length) :
    ∃ l', Above rules e f g l rest k l' := by
  have hpass : ∀ {f g : Frame} {l : List Node}, f.Passes g → f.done = l ++ rest →
      ∃ comments, g.done = (comments ++ l) ++ rest ∧
        Frame.Passes { f with done := l } { g with done := comments ++ l } := by
    rintro f - l ⟨m, comments, rfl, hcomments⟩ hdone
    exact ⟨comments, by rw [hdone, List.append_assoc], m, comments, rfl, hcomments⟩
  induction h generalizing n k l with
  | pass hmay hg =>
    obtain ⟨comments, hdone', hg'⟩ := hpass hg hdone
    obtain rfl := Peg.height?_of_mayPass hmay hk
    exact ⟨_, hdone', by rw [List.length_append]; omega, .pass hmay hg'⟩
  | @leaf kind _ _ g m hg hscan =>
    obtain ⟨comments, hdone', hg'⟩ := hpass hg hdone
    obtain rfl := Option.some.inj hk
    refine ⟨_ :: (comments ++ l), congrArg (List.cons _) hdone', ?_, .leaf hg' hscan⟩
    rw [List.length_cons, List.length_append]
    omega
  | seq _ _ iha ihb =>
    obtain ⟨m, hm, hk⟩ := Option.bind_eq_some_iff.mp hk
    obtain ⟨l', ha⟩ := iha hm hdone hn
    obtain ⟨l'', hb⟩ := ihb hk ha.done ha.length
    exact ⟨l'', hb.done, hb.length, .seq ha.derives hb.derives⟩
  | left _ ih =>
    obtain ⟨m, hm, hk⟩ := Option.bind_eq_some_iff.mp hk
    obtain ⟨m', -, rfl⟩ := Option.map_eq_some_iff.mp hk
    obtain ⟨l', ha⟩ := ih hm hdone hn
    exact ⟨l', ha.done, Nat.le_trans (Nat.min_le_left m m') ha.length, .left ha.derives⟩
  | right _ ih =>
    obtain ⟨m, -, hk⟩ := Option.bind_eq_some_iff.mp hk
    obtain ⟨m', hm', rfl⟩ := Option.map_eq_some_iff.mp hk
    obtain ⟨l', hb⟩ := ih hm' hdone hn
    exact ⟨l', hb.done, Nat.le_trans (Nat.min_le_right m m') hb.length, .right hb.derives⟩
  | more _ _ iha ihrest =>
    obtain ⟨m, hm, hle⟩ := Option.bind_eq_some_iff.mp hk
    obtain ⟨l', ha⟩ := iha hm hdone hn
    split at hle
    · rename_i hnm
      obtain ⟨l'', hrest⟩ := ihrest hk ha.done (Nat.le_trans hnm ha.length)
      exact ⟨l'', hrest.done, hrest.length, .more ha.derives hrest.derives⟩
    · cases hle
  | @ref r f inner c hoffset hwide hinner _ =>
    obtain rfl := Option.some.inj hk
    refine ⟨inner.done ++ l, ?_, ?_, .ref (f := { f with done := l }) c hoffset hwide hinner⟩
    · rw [Frame.join, hdone, List.append_assoc]
    · rw [List.length_append]
      split
      · rename_i hnode
        have hpos := List.length_pos_iff.mpr (hinner.done_ne_nil hnode)
        omega
      · omega
  | @node kind a f g inner hg hinner _ =>
    obtain ⟨comments, hdone', hg'⟩ := hpass hg hdone
    obtain rfl := Option.some.inj hk
    refine ⟨_ :: (comments ++ l), congrArg (List.cons _) hdone', ?_, .node hg' hinner⟩
    rw [List.length_cons, List.length_append]
    omega
  | @wrap kind left a f inner last before hlast hinner _ =>
    rw [Peg.height?] at hk
    split at hk
    · cases hk
    · rename_i hpos
      obtain rfl := Option.some.inj hk
      cases l with
      | nil => exact absurd (Nat.le_zero.mp hn) hpos
      | cons first l =>
        rw [hlast] at hdone
        obtain ⟨rfl, rfl⟩ := List.cons.inj hdone
        exact ⟨_ :: l, rfl, hn, .wrap (f := { f with done := last :: l }) rfl hinner⟩
  | @role r a f inner hinner _ =>
    obtain rfl := Option.some.inj hk
    refine ⟨inner.done.map (Frame.label r) ++ l, ?_, ?_, .role (f := { f with done := l }) hinner⟩
    · rw [hdone, List.append_assoc]
    · rw [List.length_append]
      omega
  | become =>
    obtain rfl := Option.some.inj hk
    exact ⟨l, hdone, hn, .become⟩

/-! ## One node -/

/-- Whether an expression is a node that is of one of the given kinds, whatever it becomes. -/
def Peg.isNodeOf (kinds : List Kind) : Peg R → Bool
  | .node kind a => (kind :: a.becomes).all kinds.contains
  | _ => false

/-- Whether an expression reads one node, which is of one of the given kinds. -/
def Peg.makes (rules : R → Peg R) (kinds : List Kind) : Peg R → Bool
  | .leaf kind _ => kinds.contains kind
  | .alt a b => a.makes rules kinds && b.makes rules kinds
  | .ref r => (rules r).isNodeOf kinds
  | e => e.isNodeOf kinds

/-- Nodes, last first, of which the last is of one of the given kinds and the others are comments. -/
def Single (kinds : List Kind) (l : List Node) : Prop :=
  ∃ n comments, l = n :: comments ∧ n.kind ∈ kinds ∧ ∀ m ∈ comments, IsComment m

theorem Peg.makes_of_isNodeOf {kinds : List Kind} (h : e.isNodeOf kinds = true) :
    e.makes rules kinds = true := by
  cases e with
  | node => exact h
  | _ => cases h

theorem Frame.Passes.exists_done (h : f.Passes g) :
    ∃ comments, g.done = comments ++ f.done ∧ ∀ m ∈ comments, IsComment m := by
  obtain ⟨n, comments, rfl, hcomments⟩ := h
  exact ⟨comments, rfl, hcomments.isComment⟩

theorem Derives.makes (hquiet : AreQuiet rules) (h : Derives rules e f g) {kinds : List Kind}
    (he : e.makes rules kinds = true) : ∃ l, g.done = l ++ f.done ∧ Single kinds l := by
  induction h with
  | @pass e _ _ hpass _ => cases e <;> first | cases he | cases hpass
  | leaf hg _ =>
    obtain ⟨comments, hdone, hcomments⟩ := hg.exists_done
    refine ⟨_ :: comments, congrArg (List.cons _) hdone, _, comments, rfl, ?_, hcomments⟩
    exact List.contains_iff_mem.mp he
  | @node kind a f g inner hg hinner _ =>
    obtain ⟨comments, hdone, hcomments⟩ := hg.exists_done
    refine ⟨_ :: comments, congrArg (List.cons _) hdone, _, comments, rfl, ?_, hcomments⟩
    exact List.contains_iff_mem.mp (List.all_eq_true.mp he _ (hinner.kind_mem hquiet kind))
  | ref c _ _ _ ih =>
    obtain ⟨l, hdone, hl⟩ := ih (Peg.makes_of_isNodeOf he)
    rw [List.append_nil] at hdone
    exact ⟨l, by rw [Frame.join, hdone], hl⟩
  | left _ ih => exact ih (Bool.and_eq_true_iff.mp he).1
  | right _ ih => exact ih (Bool.and_eq_true_iff.mp he).2
  | _ => cases he

/-! ## Bodies of nodes -/

/-- Whether an expression reads leaves only. -/
def Peg.isLeafy : Peg R → Bool
  | .leaf _ _ => true
  | .seq a b | .alt a b => a.isLeafy && b.isLeafy
  | _ => false

theorem Derives.leafy (h : Derives rules e f g) (he : e.isLeafy = true)
    (hf : ∀ n ∈ f.done, n.children = []) : ∀ n ∈ g.done, n.children = [] := by
  have hpasses : ∀ {f g : Frame}, f.Passes g → (∀ n ∈ f.done, n.children = []) →
      ∀ n ∈ g.done, n.children = [] := fun hg hf n hn =>
    (hg.mem hn).elim (hf n) fun hcomment => hcomment.2.2
  induction h with
  | pass _ hg => exact hpasses hg hf
  | leaf hg _ => exact List.forall_mem_cons.mpr ⟨rfl, hpasses hg hf⟩
  | seq _ _ iha ihb =>
    obtain ⟨ha, hb⟩ := Bool.and_eq_true_iff.mp he
    exact ihb hb (iha ha hf)
  | left _ ih => exact ih (Bool.and_eq_true_iff.mp he).1 hf
  | right _ ih => exact ih (Bool.and_eq_true_iff.mp he).2 hf
  | _ => cases he

/-- Whether an expression begins with a node of one of the given kinds, and what follows leaves this
alone. -/
def Peg.opens (rules : R → Peg R) (kinds : List Kind) : Peg R → Bool
  | .seq a b => a.makes rules kinds && (b.height? rules 0).isSome
  | _ => false

theorem Derives.opens (hquiet : AreQuiet rules) {c : Cursor} (h : Derives rules e ⟨c, [], none⟩ g)
    {kinds : List Kind} (he : e.opens rules kinds = true) :
    ∃ l first, g.done = l ++ first ∧ Single kinds first := by
  cases e with
  | seq a b =>
    obtain ⟨hmakes, hheight⟩ := Bool.and_eq_true_iff.mp he
    obtain ⟨k, hk⟩ := Option.isSome_iff_exists.mp hheight
    cases h with
    | pass hpass => cases hpass
    | seq ha hb =>
      obtain ⟨first, hfirst, hsingle⟩ := ha.makes hquiet hmakes
      rw [List.append_nil] at hfirst
      obtain ⟨l, habove⟩ := hb.above hk (l := []) hfirst (Nat.zero_le _)
      exact ⟨l, first, habove.done, hsingle⟩
  | _ => cases he

/-- Whether an expression reads a token first and another one last, of which neither is empty, and
leaves both alone. -/
def Peg.isBraced (rules : R → Peg R) : Peg R → Bool
  | .seq a (.seq b c) =>
    a.makes rules [.token] && a.eats && (b.height? rules 0).isSome && c.makes rules [.token] && c.eats
  | _ => false

/-- What stands between braces is neither at the beginning nor at the end. -/
theorem Derives.braced (hquiet : AreQuiet rules) {c : Cursor} (hwide : c.IsWide)
    (h : Derives rules e ⟨c, [], none⟩ g) (he : e.isBraced rules = true) :
    ∀ n ∈ g.done, n.kind ≠ .token → n.kind ≠ .comment →
      c.offset < n.start ∧ n.stop < g.here.offset := by
  unfold Peg.isBraced at he
  split at he
  · rename_i first body last
    simp only [Bool.and_eq_true] at he
    obtain ⟨⟨⟨⟨hopens, heats⟩, hheight⟩, hcloses⟩, heats'⟩ := he
    obtain ⟨k, hk⟩ := Option.isSome_iff_exists.mp hheight
    have hother : ∀ {l : List Node} {n : Node}, Single [.token] l → n ∈ l → n.kind ≠ .token →
        n.kind = .comment := by
      rintro _ n ⟨m, comments, rfl, hm, hcomments⟩ hn hkind
      rcases List.mem_cons.mp hn with rfl | hn
      · exact absurd (List.mem_singleton.mp hm) hkind
      · exact (hcomments n hn).1
    cases h with
    | pass hpass => cases hpass
    | @seq _ _ _ f₁ _ hfirst hrest =>
      cases hrest with
      | pass hpass => cases hpass
      | @seq _ _ _ f₂ _ hbody hlast =>
        obtain ⟨opening, hopening, hsingle⟩ := hfirst.makes hquiet hopens
        obtain ⟨closing, hclosing, hsingle'⟩ := hlast.makes hquiet hcloses
        obtain ⟨l, habove⟩ := hbody.above hk (List.nil_append f₁.done).symm (Nat.zero_le _)
        have hstrung := habove.derives.strung (Nat.le_refl _) (.nil _ _)
        have hstart := hfirst.offset_lt heats hwide
        have hstop := hlast.offset_lt heats' (hbody.isWide (hfirst.isWide hwide))
        intro n hn htoken hcomment
        rw [hclosing, habove.done, hopening, List.append_nil, List.mem_append, List.mem_append] at hn
        rcases hn with hn | hn | hn
        · exact absurd (hother hsingle' hn htoken) hcomment
        · have hbounded := hstrung.bounded n hn
          dsimp only at hbounded hstart
          omega
        · exact absurd (hother hsingle hn htoken) hcomment
  · cases he

/-! ## What the grammar says -/

/-- Whether a node of a kind may have anything below it, and is not empty if it must not be. -/
def Peg.isAmple (a : Peg R) (kind : Kind) : Bool :=
  !Node.leafKinds.contains kind && (!Node.wideKinds.contains kind || a.eats)

/-- Whether a node with what an expression reads as its children is as nodes of a kind are. -/
def Peg.suits (rules : R → Peg R) (a : Peg R) (kind : Kind) : Bool :=
  a.isAmple kind && (kind != .jsxAttribute || a.opens rules Node.attributeNames) &&
    (kind != .jsxNamespaceName || a.isLeafy) && (kind != .objectPattern || a.isBraced rules)

/-- Whether a node around another one and what an expression reads is as nodes of a kind are. -/
def Peg.suitsAround (a : Peg R) (kind : Kind) : Bool :=
  a.isAmple kind && kind != .jsxAttribute && kind != .jsxNamespaceName && kind != .objectPattern

/-- Whether an expression reads well formed trees, if the rules do. -/
def Peg.forms (rules : R → Peg R) : Peg R → Bool
  | .leaf kind lexeme => !Node.wideKinds.contains kind || lexeme.isSolid
  | .seq a b | .alt a b => a.forms rules && b.forms rules
  | .many a => a.forms rules
  | .node kind a => a.forms rules && (kind :: a.becomes).all (a.suits rules)
  | .wrap kind left a =>
    a.forms rules && (left.bind Node.kindsOf).isNone && (kind :: a.becomes).all a.suitsAround
  | .role r a => a.forms rules && (Node.kindsOf r).all (a.makes rules)
  | _ => true

/-! ## Reading -/

/-- A frame whose nodes are well formed and have roles that they can have. -/
def Frame.Sound (f : Frame) : Prop := ∀ n ∈ f.done, n.WellFormed ∧ n.RoleFits

theorem Frame.Sound.nil {here : Cursor} {became : Option Kind} :
    Frame.Sound ⟨here, [], became⟩ :=
  nofun

/-- A node without a role has a role that it can have. -/
theorem roleFits_of_none {n : Node} (h : n.role = none) : n.RoleFits := by
  intro r hr
  rw [h] at hr
  cases hr

theorem Frame.Sound.cons {here : Cursor} {n : Node} (hf : f.Sound) (hn : n.WellFormed)
    (hrole : n.role = none) : Frame.Sound { f with here, done := n :: f.done } :=
  List.forall_mem_cons.mpr ⟨⟨hn, roleFits_of_none hrole⟩, hf⟩

theorem Frame.Sound.passes (hf : f.Sound) (h : f.Passes g) : g.Sound := by
  obtain ⟨k, l, rfl, hl⟩ := h
  refine List.forall_mem_append.mpr ⟨fun n hn => ?_, hf⟩
  obtain ⟨hkind, hrole, hchildren⟩ := hl.isComment n hn
  refine ⟨Node.wellFormed_of_childless (hl.strung.bounded n hn).2.1 hchildren ?_,
    roleFits_of_none hrole⟩
  rw [hkind]
  exact fun hwide => absurd hwide (by decide)

/-- A body that the check lets pass makes a well formed node. -/
theorem Derives.wellFormed_node (hquiet : AreQuiet rules) {c : Cursor} (hwide : c.IsWide)
    (h : Derives rules a ⟨c, [], none⟩ inner) (hsound : inner.Sound) {kind : Kind}
    (hsuits : a.suits rules kind = true) (line : Nat) (text : String) :
    (⟨kind, none, c.offset, inner.here.offset, line, text, inner.done.reverse⟩ :
      Node).WellFormed := by
  simp only [Peg.suits, Peg.isAmple, Bool.and_eq_true, Bool.or_eq_true, Bool.not_eq_true',
    List.contains_eq_mem, decide_eq_false_iff_not, bne_iff_ne] at hsuits
  obtain ⟨⟨⟨⟨hleaf, heats⟩, hopens⟩, hleafy⟩, hbraced⟩ := hsuits
  have hstrung := h.strung (Nat.le_refl _) (.nil _ _)
  have hmem : ∀ {P : Node → Prop}, (∀ n ∈ inner.done, P n) → ∀ n ∈ inner.done.reverse, P n :=
    fun hall n hn => hall n (List.mem_reverse.mp hn)
  refine Node.wellFormed_iff.mpr ⟨⟨⟨h.offset_le, hmem fun n hn => ?_, ?_⟩, fun hkind => ?_,
    fun hkind => ?_, hmem fun n hn => (hsound n hn).2, fun hkind n hn => ?_, fun hkind => ?_,
    fun hkind n hn => ?_⟩, hmem fun n hn => (hsound n hn).1⟩
  · exact ⟨(hstrung.bounded n hn).1, (hstrung.bounded n hn).2.2⟩
  · exact List.pairwise_reverse.mpr hstrung.ordered
  · exact absurd hkind hleaf
  · exact h.offset_lt (heats.resolve_left (not_not_intro hkind)) hwide
  · obtain ⟨l, first, hdone, m, comments, rfl, hm, hcomments⟩ :=
      h.opens hquiet (hopens.resolve_left (not_not_intro hkind))
    have hother : ∀ k, k ∉ Node.attributeNames → m.kind ≠ k := fun k hk hsame => hk (hsame ▸ hm)
    have hchildren : inner.done.reverse = comments.reverse ++ m :: l.reverse := by
      rw [hdone, List.reverse_append, List.reverse_cons, List.append_assoc, List.singleton_append]
    have hfirst := Node.firstPart?_eq
      (n := ⟨kind, none, c.offset, inner.here.offset, line, text, inner.done.reverse⟩) hchildren
      (fun c hc => (hcomments c (List.mem_reverse.mp hc)).1) (hother _ (by decide))
      (hother _ (by decide))
    rw [hfirst] at hn
    exact Option.some.inj hn ▸ hm
  · exact hmem (h.leafy (hleafy.resolve_left (not_not_intro hkind)) nofun)
  · have hn' := List.mem_filter.mp hn
    have hn'' := List.mem_filter.mp hn'.1
    exact h.braced hquiet hwide (hbraced.resolve_left (not_not_intro hkind)) n
      (List.mem_reverse.mp hn''.1) (bne_iff_ne.mp hn''.2) (bne_iff_ne.mp hn'.2)

/-- A node around another one that the check lets pass is well formed. -/
theorem Derives.wellFormed_wrap {c : Cursor} (hwide : c.IsWide)
    (h : Derives rules a ⟨c, [], none⟩ inner) (hsound : inner.Sound) {kind : Kind}
    (hsuits : a.suitsAround kind = true) (first : Node) (hfirst : first.WellFormed)
    (hrole : first.RoleFits) (hstop : first.stop ≤ c.offset) (line : Nat) (text : String) :
    (⟨kind, none, first.start, inner.here.offset, line, text, first :: inner.done.reverse⟩ :
      Node).WellFormed := by
  simp only [Peg.suitsAround, Peg.isAmple, Bool.and_eq_true, Bool.or_eq_true, Bool.not_eq_true',
    List.contains_eq_mem, decide_eq_false_iff_not, bne_iff_ne] at hsuits
  obtain ⟨⟨⟨⟨hleaf, heats⟩, hattribute⟩, hnamespaced⟩, hpattern⟩ := hsuits
  have hstrung := h.strung (Nat.le_refl _) (.nil _ _)
  have hstart := hfirst.formed.start_le_stop
  have hle := h.offset_le
  have hmem : ∀ {P : Node → Prop}, P first → (∀ n ∈ inner.done, P n) →
      ∀ n ∈ first :: inner.done.reverse, P n := fun hfirst hall =>
    List.forall_mem_cons.mpr ⟨hfirst, fun n hn => hall n (List.mem_reverse.mp hn)⟩
  dsimp only at hstrung hle
  refine Node.wellFormed_iff.mpr ⟨⟨⟨?_, hmem ⟨Nat.le_refl _, ?_⟩ fun n hn => ?_,
    List.pairwise_cons.mpr ⟨fun n hn => ?_, List.pairwise_reverse.mpr hstrung.ordered⟩⟩,
    fun hkind => absurd hkind hleaf, fun hkind => ?_, hmem hrole fun n hn => (hsound n hn).2,
    fun hkind => absurd hkind hattribute, fun hkind => absurd hkind hnamespaced,
    fun hkind => absurd hkind hpattern⟩, hmem hfirst fun n hn => (hsound n hn).1⟩
  · dsimp only
    omega
  · dsimp only
    omega
  · have hbounded := hstrung.bounded n hn
    dsimp only
    omega
  · have hbounded := hstrung.bounded n (List.mem_reverse.mp hn)
    omega
  · have hlt := h.offset_lt (heats.resolve_left (not_not_intro hkind)) hwide
    dsimp only at hlt ⊢
    omega

/-- **What passes the check reads well formed trees.** -/
theorem Derives.sound (hquiet : AreQuiet rules) (hrules : ∀ r, (rules r).forms rules = true)
    (h : Derives rules e f g) (he : e.forms rules = true) (hwide : f.here.IsWide) {low : Nat}
    (hlow : low ≤ f.here.offset) (hstrung : Strung low f.here.offset f.done) (hf : f.Sound) :
    g.Sound := by
  induction h generalizing low with
  | pass _ hg => exact hf.passes hg
  | @leaf kind lexeme f g n hg hscan =>
    refine (hf.passes hg).cons (Node.wellFormed_of_childless ?_ rfl fun hkind => ?_) rfl
    · exact Cursor.offset_le_forward n g.here
    · rw [Peg.forms, Bool.or_eq_true, Bool.not_eq_true', List.contains_eq_mem,
        decide_eq_false_iff_not] at he
      obtain ⟨hrest, hn⟩ := Lexeme.pos_of_scan (he.resolve_left (not_not_intro hkind)) hscan
      exact (hg.isWide hwide).offset_lt hrest hn
  | seq ha _ iha ihb =>
    obtain ⟨hea, heb⟩ := Bool.and_eq_true_iff.mp he
    exact ihb heb (ha.isWide hwide) (Nat.le_trans hlow ha.offset_le) (ha.strung hlow hstrung)
      (iha hea hwide hlow hstrung hf)
  | left _ ih => exact ih (Bool.and_eq_true_iff.mp he).1 hwide hlow hstrung hf
  | right _ ih => exact ih (Bool.and_eq_true_iff.mp he).2 hwide hlow hstrung hf
  | more ha _ iha ihrest =>
    exact ihrest he (ha.isWide hwide) (Nat.le_trans hlow ha.offset_le) (ha.strung hlow hstrung)
      (iha he hwide hlow hstrung hf)
  | @ref r f inner c _ hc _ ih =>
    exact List.forall_mem_append.mpr ⟨ih (hrules r) hc (Nat.le_refl _) (.nil _ _) .nil, hf⟩
  | @node kind a f g inner hg hinner ih =>
    obtain ⟨hbody, hsuits⟩ := Bool.and_eq_true_iff.mp he
    have hhere := hg.isWide hwide
    have hsound := ih hbody hhere (Nat.le_refl _) (.nil _ _) .nil
    have hkind := List.all_eq_true.mp hsuits _ (hinner.kind_mem hquiet kind)
    exact (hf.passes hg).cons (hinner.wellFormed_node hquiet hhere hsound hkind _ _) rfl
  | @wrap kind left a f inner last before hdone hinner ih =>
    rw [Peg.forms, Bool.and_eq_true, Bool.and_eq_true, Option.isNone_iff_eq_none] at he
    obtain ⟨⟨hbody, hleft⟩, hsuits⟩ := he
    rw [Frame.Sound, hdone] at hf
    obtain ⟨hlast, hbefore⟩ := List.forall_mem_cons.mp hf
    have hbounded := hstrung.bounded last (hdone ▸ List.mem_cons_self)
    have hsound := ih hbody hwide (Nat.le_refl _) (.nil _ _) .nil
    have hkind := List.all_eq_true.mp hsuits _ (hinner.kind_mem hquiet kind)
    refine List.forall_mem_cons.mpr ⟨⟨?_, roleFits_of_none rfl⟩, hbefore⟩
    refine hinner.wellFormed_wrap hwide hsound hkind { last with role := left }
      (hlast.1.setRole left) (fun r hr kinds hkinds => ?_) hbounded.2.2 _ _
    rw [show left = some r from hr, Option.bind_some, hkinds] at hleft
    cases hleft
  | @role r a f inner hinner ih =>
    obtain ⟨hbody, hkinds⟩ := Bool.and_eq_true_iff.mp he
    have hsound := ih hbody hwide (Nat.le_refl _) (.nil _ _) .nil
    refine List.forall_mem_append.mpr ⟨fun n hn => ?_, hf⟩
    obtain ⟨m, hm, rfl⟩ := List.mem_map.mp hn
    unfold Frame.label
    split
    · exact hsound m hm
    · rename_i hcomment
      refine ⟨(hsound m hm).1.setRole (some r), fun r' hr' kinds hk => ?_⟩
      obtain rfl : r = r' := Option.some.inj hr'
      rw [hk] at hkinds
      obtain ⟨l, hdone, n, comments, rfl, hkind, hcomments⟩ := hinner.makes hquiet hkinds
      rw [hdone, List.append_nil] at hm
      rcases List.mem_cons.mp hm with rfl | hm
      · exact hkind
      · exact absurd (beq_iff_eq.mpr (hcomments m hm).1) hcomment
  | become => exact hf

end Shapes

/-! ## Sources -/

theorem forms_rules (lang : Language) (r : Rule) : (rules lang r).forms (rules lang) = true := by
  cases lang <;> cases r <;>
    first
      | rfl
      | (rename_i place; cases place <;> rfl)
      | (rename_i place binding; cases place <;> cases binding <;> rfl)

/-- What is derived from the beginning of a source is well formed. -/
theorem wellFormed_of_derives {lang : Language} {source : List Glyph} {f : Frame}
    (hwide : ∀ g ∈ source, 0 < g.width)
    (h : Derives (rules lang) (rule .program) ⟨beginning source, [], none⟩ f) :
    (root source f.skip.done f.skip.here).WellFormed := by
  have hstrung := (h.strung (Nat.le_refl _) (.nil _ _)).passes h.offset_le f.passes_skip
  have hsound : f.skip.Sound :=
    (h.sound (areQuiet_rules lang) (forms_rules lang) rfl hwide (Nat.le_refl _) (.nil _ _)
      .nil).passes f.passes_skip
  have hmem : ∀ {P : Node → Prop}, (∀ n ∈ f.skip.done, P n) →
      ∀ n ∈ f.skip.done.reverse, P n := fun hall n hn => hall n (List.mem_reverse.mp hn)
  refine Node.wellFormed_iff.mpr ⟨⟨⟨Nat.zero_le _, hmem fun n hn => ?_,
    List.pairwise_reverse.mpr hstrung.ordered⟩, nofun, nofun, hmem fun n hn => (hsound n hn).2,
    nofun, nofun, nofun⟩, hmem fun n hn => (hsound n hn).1⟩
  exact ⟨Nat.zero_le _, (hstrung.bounded n hn).2.2⟩

end Grammar

/-- **The trees of sources are well formed.** -/
theorem Source.wellFormed_root {bytes : Bytes} {path : String} {language : Language} {s : Source}
    (h : ofBytes bytes path language = .ok s) : s.root.WellFormed := by
  obtain ⟨f, hf, hroot⟩ := Source.derived_root h
  rw [hroot]
  exact Grammar.wellFormed_of_derives (fun g => Utf8.width_pos_of_mem_glyphs) hf

end Transplant
