import Transplant.Proofs.Defaults.Meaning
import Mathlib.Data.List.Nodup

/-!
# What the edits of defaults make of a component

The edits of `Defaults.normalize` are texts.  A `Rewriting` is what they stand for: members of the
pattern with the members that replace them, the entries of the object that are kept, and the entries
that are added.  `Rewriting.edits` writes a rewriting down, and by `normalize_edits` these are
exactly the edits that are made.  So what the component takes for its props afterwards can be read
off the rewriting.

* `withDefault`, `withoutDefault`: members with another default and with none
* `Rewriting.edits`: a rewriting as edits
* `rewriting`: the rewriting for a style
* `normalize_edits`: the edits that are made are those of the rewriting
* `Rewriting.lastMember?_after`: which members count afterwards
-/

namespace Transplant
namespace Defaults

/-! ## Members with other defaults -/

/-- What the member of a pattern binds, without its default. -/
def boundPart (member : Node) : Node :=
  match member.kind with
  | .objectAssignmentPattern => (member.child? .left).getD member
  | .pairPattern =>
    match member.child? .value with
    | some value =>
      if value.kind == .assignmentPattern then (value.child? .left).getD value else value
    | none => member
  | _ => member

/-- The member with `value` for its default. -/
def withDefault (member value : Node) : Node :=
  let pieces := [(boundPart member).inRole .left, value.inRole .right]
  let text := bindingText member ++ " = " ++ value.text
  match member.kind with
  | .pairPattern =>
    let inner : Node := { member with
      kind := .assignmentPattern
      role := some .value
      text := (boundPart member).text ++ " = " ++ value.text
      children := pieces }
    { member with text, children := (member.child? .key).toList ++ [inner] }
  | _ => { member with kind := .objectAssignmentPattern, text, children := pieces }

/-- The member without a default. -/
def withoutDefault (member : Node) : Node :=
  match member.kind with
  | .objectAssignmentPattern => { boundPart member with role := member.role }
  | .pairPattern =>
    { member with
      text := bindingText member
      children := (member.child? .key).toList ++ [(boundPart member).inRole .value] }
  | _ => member

@[simp] theorem text_withDefault (member value : Node) :
    (withDefault member value).text = bindingText member ++ " = " ++ value.text := by
  unfold withDefault
  split <;> rfl

@[simp] theorem text_withoutDefault (member : Node) :
    (withoutDefault member).text = bindingText member := by
  unfold withoutDefault bindingText
  split <;> simp_all [boundPart]

/-- Whether a member is as it is read: one with a default binds a name, and one with a key has a
value, which is no default of a default. -/
def regular (member : Node) : Bool :=
  match member.kind with
  | .objectAssignmentPattern =>
    (member.child? .left).any (·.kind == .shorthandPropertyIdentifierPattern)
  | .pairPattern =>
    (member.child? .value).any fun value => value.kind != .assignmentPattern ||
      (value.child? .left).any (·.kind != .assignmentPattern)
  | _ => true

theorem left_of_regular {member : Node} (h : regular member = true)
    (hkind : member.kind = .objectAssignmentPattern) :
    ∃ left, member.child? .left = some left ∧ left.kind = .shorthandPropertyIdentifierPattern := by
  simp only [regular, hkind, Option.any_eq_true, beq_iff_eq] at h
  obtain ⟨left, hleft, hshort⟩ := h
  exact ⟨left, hleft, hshort⟩

theorem role_of_child? {n c : Node} {r : Role} (h : n.child? r = some c) : c.role = some r := by
  simpa using List.find?_some h

theorem memberName?_cases {member : Node} {prop : String} (h : memberName? member = some prop) :
    (member.kind = .shorthandPropertyIdentifierPattern ∧ member.text = prop) ∨
    (member.kind = .objectAssignmentPattern ∧
      ∃ left, member.child? .left = some left ∧ left.text = prop) ∨
    (member.kind = .pairPattern ∧ ∃ key, member.child? .key = some key ∧ key.keyName = prop) := by
  unfold memberName? at h
  split at h
  · rename_i hkind
    exact Or.inl ⟨hkind, Option.some.inj h⟩
  · rename_i hkind
    exact Or.inr (Or.inl ⟨hkind, Option.map_eq_some_iff.mp h⟩)
  · rename_i hkind
    exact Or.inr (Or.inr ⟨hkind, Option.map_eq_some_iff.mp h⟩)
  · cases h

theorem memberName?_withDefault {member : Node} {prop : String} (value : Node)
    (h : memberName? member = some prop) : memberName? (withDefault member value) = some prop := by
  obtain ⟨hkind, htext⟩ | ⟨hkind, left, hleft, htext⟩ | ⟨hkind, key, hkey, hname⟩ :=
    memberName?_cases h
  · simp [withDefault, memberName?, hkind, boundPart, Node.child?, Node.inRole, htext]
  · simp only [withDefault, memberName?, hkind, boundPart, hleft]
    simp [Node.child?, Node.inRole, htext]
  · simp only [withDefault, memberName?, hkind, hkey]
    simp [Node.child?, role_of_child? hkey, hname]

theorem memberDefault?_withDefault {member : Node} {prop : String} (value : Node)
    (h : memberName? member = some prop) :
    memberDefault? (withDefault member value) = some (value.inRole .right) := by
  obtain ⟨hkind, -⟩ | ⟨hkind, -⟩ | ⟨hkind, key, hkey, -⟩ := memberName?_cases h
  · simp [withDefault, memberDefault?, hkind, Node.child?, Node.inRole]
  · simp [withDefault, memberDefault?, hkind, Node.child?, Node.inRole]
  · simp only [withDefault, memberDefault?, hkind, hkey]
    simp [Node.child?, role_of_child? hkey, Node.inRole]

theorem boundPart_of_keyed {member : Node} (h : regular member = true)
    (hkind : member.kind = .pairPattern) : (boundPart member).kind ≠ .assignmentPattern := by
  simp only [regular, hkind, Option.any_eq_true, Bool.or_eq_true, bne_iff_ne] at h
  obtain ⟨value, hvalue, hbound⟩ := h
  by_cases hpattern : value.kind = .assignmentPattern
  · obtain ⟨bound, hleft, hne⟩ := hbound.resolve_left fun h => h hpattern
    simp [boundPart, hkind, hvalue, hpattern, hleft, hne]
  · simp [boundPart, hkind, hvalue, hpattern]

theorem memberName?_withoutDefault {member : Node} (h : regular member = true) :
    memberName? (withoutDefault member) = memberName? member := by
  unfold withoutDefault
  split
  · rename_i hkind
    obtain ⟨left, hleft, hshort⟩ := left_of_regular h hkind
    simp [memberName?, boundPart, hkind, hleft, hshort]
  · rename_i hkind
    simp only [memberName?, hkind]
    cases hkey : member.child? .key with
    | none => simp [Node.child?, Node.inRole]
    | some key => simp [Node.child?, role_of_child? hkey]
  · rfl

theorem memberDefault?_withoutDefault {member : Node} (h : regular member = true) :
    memberDefault? (withoutDefault member) = none := by
  unfold withoutDefault
  split
  · rename_i hkind
    obtain ⟨left, hleft, hshort⟩ := left_of_regular h hkind
    simp [memberDefault?, boundPart, hkind, hleft, hshort]
  · rename_i hkind
    have hbound := boundPart_of_keyed h hkind
    cases hkey : member.child? .key with
    | none => simp [memberDefault?, hkind, Node.child?, Node.inRole, hbound]
    | some key =>
      simp [memberDefault?, hkind, Node.child?, Node.inRole, role_of_child? hkey, hbound]
  · rename_i hplain hkeyed
    unfold memberDefault?
    split
    · rename_i hkind
      exact absurd hkind hplain
    · rename_i hkind
      exact absurd hkind hkeyed
    · rfl

/-! ## Entries that are written anew -/

/-- Whether a text can stand between single quotes: no bare quote and no line end, and no backslash
that would take the closing quote. -/
def quotable : List Char → Bool
  | [] => true
  | ['\\'] => false
  | '\\' :: _ :: rest => quotable rest
  | c :: rest => c != '\'' && c != '\n' && c != '\r' && quotable rest

/-- Whether a key can be written for a prop: as the prop itself, or between quotes. -/
def hasKey (prop : String) : Bool :=
  Text.isIdentifier prop || (prop != "" && quotable prop.toList)

/-- The entry that gives a prop a value. -/
def entryFor (prop : String) (value : Node) : Node :=
  let key : Node := { value with
    kind := if Text.isIdentifier prop then .propertyIdentifier else .string
    role := some .key
    text := keyText prop
    children := [] }
  { value with
    kind := .pair
    role := none
    text := entryText (prop, value.text)
    children := [key, value.inRole .value] }

@[simp] theorem text_entryFor (prop : String) (value : Node) :
    (entryFor prop value).text = entryText (prop, value.text) := rfl

/-- An entry that is written for a prop is read as one for that prop. -/
theorem asPair?_entryFor {prop : String} (value : Node) (h : prop ≠ "") :
    asPair? (entryFor prop value) = some ⟨prop, entryFor prop value, value.inRole .value⟩ := by
  have hname : ∀ key : Node,
      key.kind = (if Text.isIdentifier prop then .propertyIdentifier else .string) →
      key.text = keyText prop → key.keyName = prop := by
    intro key hkind htext
    by_cases hident : Text.isIdentifier prop = true
    · simp [Node.keyName, Node.stringValue?, Node.isPlainTemplate, hkind, htext, keyText, hident]
    · simp [Node.keyName, Node.stringValue?, hkind, htext, keyText, hident, h]
  simp only [asPair?, entryFor, Node.child?, Node.inRole]
  simp [hname]

/-! ## Rewritings -/

/-- What becomes of the members of a pattern and of the entries of an object. -/
structure Rewriting where
  /-- Members with the members that replace them. -/
  members : List (Node × Node)
  kept : List Node
  added : List (String × Node)

namespace Rewriting

variable (r : Rewriting)

/-- What becomes of a member. -/
def member (m : Node) : Node := ((r.members.find? (·.1.start == m.start)).map (·.2)).getD m

/-- The entries of the object afterwards. -/
def entries : List Node := r.kept ++ r.added.map fun e => entryFor e.1 e.2

/-- The result can be read: no member is replaced twice, and each entry that is added has a key. -/
def Readable : Prop := (r.members.map (·.1.start)).Nodup ∧ ∀ e ∈ r.added, hasKey e.1 = true

/-- The edit of the object, if its entries change.  Without entries the statement goes, and without
a statement there is one behind the component. -/
def objectEdits (bytes : Bytes) (site : Site) (defaults : Option Site.Defaults) : List Edit :=
  match defaults with
  | some d =>
    if r.kept.length = d.object.parts.length ∧ r.added = [] then []
    else if r.entries = [] then [delete bytes d.statement]
    else [replace d.object (objectText (r.entries.map (·.text)))]
  | none =>
    if r.added = [] then []
    else
      let lines := r.added.map fun e => "  " ++ (entryFor e.1 e.2).text ++ ",\n"
      [⟨site.statement.stop, site.statement.stop,
        "\n\n" ++ site.binding.getD "" ++ ".defaultProps = \x7b\n" ++ Text.concat lines ++ "\x7d;"⟩]

/-- The rewriting as edits. -/
def edits (bytes : Bytes) (site : Site) (defaults : Option Site.Defaults) : List Edit :=
  r.members.map (fun m => replace m.1 m.2.text) ++ r.objectEdits bytes site defaults

end Rewriting

/-- The entries of an object of defaults. -/
def entriesOf (defaults : Option Site.Defaults) : List Node :=
  (defaults.map (·.object.parts)).getD []

/-- What becomes of the entries of an object, given the members of the pattern. -/
def movesOf (pattern : Node) (defaults : Option Site.Defaults) : List Move :=
  ((defaults.map (·.pairs)).getD []).map (moveOf (members pattern))

/-- A member with what replaces it, if an entry is moved to it. -/
def Move.rewrite? : Move → Option (Node × Node)
  | .moved pair member => some (member, withDefault member pair.value)
  | _ => none

/-- What becomes of the defaults in a pattern. -/
def liftsOf (site : Site) (pattern : Node) : List Lift :=
  (members pattern).entries.filterMap (liftOf? site)

/-- A member with what replaces it, if its default is lifted. -/
def Lift.rewrite? : Lift → Option (Node × Node)
  | .lifted _ member _ => some (member, withoutDefault member)
  | _ => none

/-- The prop and the value of a lifted default. -/
def Lift.value? : Lift → Option (String × Node)
  | .lifted prop _ default => some (prop, default)
  | _ => none

/-- The lifted defaults for which the object has no entry yet. -/
def freshOf (site : Site) (pattern : Node) (defaults : Option Site.Defaults) :
    List (String × Node) :=
  ((liftsOf site pattern).filterMap Lift.value?).filter fun e =>
    !((defaults.map fun d => d.pairs.map (·.prop)).getD []).contains e.1

/-- The rewriting that brings defaults into a style. -/
def rewriting (style : DefaultStyle) (site : Site) (pattern : Node)
    (defaults : Option Site.Defaults) : Rewriting :=
  match style with
  | .explicit =>
    let moves := movesOf pattern defaults
    { members := moves.filterMap Move.rewrite?
      kept := (entriesOf defaults).filter fun q => !(moves.filterMap Move.from?).contains q.start
      added := [] }
  | .assigned =>
    { members := (liftsOf site pattern).filterMap Lift.rewrite?
      kept := entriesOf defaults
      added := freshOf site pattern defaults }

/-! ## The edits that are made -/

theorem Move.edit?_eq (m : Move) : m.edit? = m.rewrite?.map fun r => replace r.1 r.2.text := by
  cases m <;> simp [Move.edit?, Move.rewrite?]

theorem Lift.edit?_eq (l : Lift) : l.edit? = l.rewrite?.map fun r => replace r.1 r.2.text := by
  cases l <;> simp [Lift.edit?, Lift.rewrite?]

theorem Lift.entry?_eq (l : Lift) : l.entry? = l.value?.map fun e => (e.1, e.2.text) := by
  cases l <;> simp [Lift.entry?, Lift.value?]

theorem pairs_of_defaultsIn? {names : List String} {statement : Node} {d : Site.Defaults}
    (h : Site.defaultsIn? names statement = some d) : d.pairs = Site.pairsOf d.object := by
  unfold Site.defaultsIn? at h
  simp only [bind, Option.bind_none] at h
  split at h
  · cases h
  · obtain ⟨expression, -, h⟩ := Option.bind_eq_some_iff.mp h
    split at h
    · cases h
    · obtain ⟨left, -, h⟩ := Option.bind_eq_some_iff.mp h
      obtain ⟨right, -, h⟩ := Option.bind_eq_some_iff.mp h
      split at h
      · cases h
      · obtain ⟨object, -, h⟩ := Option.bind_eq_some_iff.mp h
        obtain ⟨property, -, h⟩ := Option.bind_eq_some_iff.mp h
        split at h
        · cases h
        · rw [← Option.some.inj h]

/-- The pairs of the defaults that are found are those of their object. -/
theorem pairs_of_defaults? {root : Node} {site : Site} {d : Site.Defaults}
    (h : Site.defaults? root site = some d) : d.pairs = d.object.parts.filterMap asPair? := by
  obtain ⟨statement, -, hstatement⟩ := List.exists_of_findSome?_eq_some h
  rw [pairs_of_defaultsIn? hstatement, pairsOf_eq]

/-- An entry that is moved is not kept. -/
theorem length_kept_lt {pattern : Node} {d : Site.Defaults}
    (hpairs : d.pairs = d.object.parts.filterMap asPair?)
    (h : (movesOf pattern (some d)).filterMap Move.from? ≠ []) :
    (d.object.parts.filter fun q =>
      !((movesOf pattern (some d)).filterMap Move.from?).contains q.start).length <
        d.object.parts.length := by
  obtain ⟨start, hstart⟩ := List.exists_mem_of_ne_nil _ h
  obtain ⟨move, hmove, hfrom⟩ := List.mem_filterMap.mp hstart
  obtain ⟨p, hp, rfl⟩ := List.mem_map.mp hmove
  have hmoved : p.pair.start = start := by
    unfold moveOf at hfrom
    split at hfrom
    · cases hfrom
    · split at hfrom
      · cases hfrom
      · exact Option.some.inj hfrom
  rw [Option.map_some, Option.getD_some, hpairs] at hp
  obtain ⟨q, hq, hpair⟩ := List.mem_filterMap.mp hp
  refine List.length_filter_lt_length_iff_exists.mpr ⟨q, hq, ?_⟩
  rw [← pair_of_asPair? hpair, hmoved]
  simpa using hstart

theorem toParameter_edits {pattern : Node} {defaults : Option Site.Defaults} (bytes : Bytes)
    (site : Site) (hpattern : pattern.kind = .objectPattern)
    (hpairs : ∀ d, defaults = some d → d.pairs = d.object.parts.filterMap asPair?) :
    (toParameter bytes site (some pattern) defaults).edits =
      (rewriting .explicit site pattern defaults).edits bytes site defaults := by
  cases defaults with
  | none => rfl
  | some d =>
    have hfilter : (some pattern).filter (·.kind == .objectPattern) = some pattern := by
      simp [hpattern]
    have hmembers : (movesOf pattern (some d)).filterMap Move.edit? =
        ((movesOf pattern (some d)).filterMap Move.rewrite?).map fun m => replace m.1 m.2.text := by
      rw [List.map_filterMap]
      exact List.filterMap_congr fun m _ => Move.edit?_eq m
    have hedits : (toParameter bytes site (some pattern) (some d)).edits =
        (movesOf pattern (some d)).filterMap Move.edit? ++
          if ((movesOf pattern (some d)).filterMap Move.from?).isEmpty then []
          else [shrink bytes d ((movesOf pattern (some d)).filterMap Move.from?)] := by
      unfold toParameter
      by_cases hnone : d.pairs = []
      · simp [hnone, movesOf]
      · simp [hnone, movesOf, hfilter]
    rw [hedits, hmembers, Rewriting.edits]
    congr 1
    by_cases hmoved : (movesOf pattern (some d)).filterMap Move.from? = []
    · simp [Rewriting.objectEdits, rewriting, hmoved, entriesOf]
    · have hchanged : ¬((rewriting .explicit site pattern (some d)).kept.length =
          d.object.parts.length ∧ (rewriting .explicit site pattern (some d)).added = []) :=
        fun h =>
          absurd (length_kept_lt (hpairs d rfl) hmoved) (by rw [← h.1]; exact Nat.lt_irrefl _)
      have hentries : (rewriting .explicit site pattern (some d)).entries =
          d.object.parts.filter fun q =>
            !((movesOf pattern (some d)).filterMap Move.from?).contains q.start :=
        List.append_nil _
      simp only [Rewriting.objectEdits, if_neg hchanged, hentries, shrink, List.isEmpty_iff, hmoved,
        if_false]
      split <;> rfl

theorem toObject_edits {pattern : Node} (bytes : Bytes) (site : Site)
    (defaults : Option Site.Defaults) (hpattern : pattern.kind = .objectPattern) :
    (toObject site (some pattern) defaults).edits =
      (rewriting .assigned site pattern defaults).edits bytes site defaults := by
  have hfilter : (some pattern).filter (·.kind == .objectPattern) = some pattern := by
    simp [hpattern]
  have hmembers : (liftsOf site pattern).filterMap Lift.edit? =
      ((liftsOf site pattern).filterMap Lift.rewrite?).map fun m => replace m.1 m.2.text := by
    rw [List.map_filterMap]
    exact List.filterMap_congr fun l _ => Lift.edit?_eq l
  have hfresh : ((liftsOf site pattern).filterMap Lift.entry?).filter (fun e =>
      !((defaults.map fun d => d.pairs.map (·.prop)).getD []).contains e.1) =
        (freshOf site pattern defaults).map fun e => (e.1, e.2.text) := by
    have hentries : (liftsOf site pattern).filterMap Lift.entry? =
        ((liftsOf site pattern).filterMap Lift.value?).map fun e => (e.1, e.2.text) := by
      rw [List.map_filterMap]
      exact List.filterMap_congr fun l _ => Lift.entry?_eq l
    rw [hentries, List.filter_map]
    rfl
  unfold toObject
  rw [hfilter]
  simp only []
  rw [show (members pattern).entries.filterMap (liftOf? site) = liftsOf site pattern from rfl,
    hmembers, hfresh, Rewriting.edits]
  congr 1
  have hadded : (rewriting .assigned site pattern defaults).added = freshOf site pattern defaults :=
    rfl
  have hentries : (rewriting .assigned site pattern defaults).entries =
      entriesOf defaults ++ (freshOf site pattern defaults).map fun e => entryFor e.1 e.2 := rfl
  by_cases hnone : freshOf site pattern defaults = []
  · cases defaults <;> simp [Rewriting.objectEdits, hnone, rewriting, entriesOf]
  · cases defaults with
    | none =>
      simp [Rewriting.objectEdits, hadded, hnone, extend, Function.comp_def]
    | some d =>
      simp [Rewriting.objectEdits, hadded, hnone, extend, hentries, entriesOf, Function.comp_def]

/-- **The edits that are made for a style are those of its rewriting.** -/
theorem normalize_edits (style : DefaultStyle) (source : Source) {site : Site}
    {param pattern : Node} (hparam : (Function.params site.callable).head? = some param)
    (hpattern : (Function.pattern param).1 = pattern) (hkind : pattern.kind = .objectPattern) :
    (normalize style source site).edits =
      (rewriting style site pattern (Site.defaults? source.root site)).edits source.bytes site
        (Site.defaults? source.root site) := by
  have hpairs : ∀ d, Site.defaults? source.root site = some d →
      d.pairs = d.object.parts.filterMap asPair? := fun d hd => pairs_of_defaults? hd
  unfold normalize
  rw [hparam, Option.map_some, hpattern]
  cases style with
  | explicit => exact toParameter_edits source.bytes site hkind hpairs
  | assigned => exact toObject_edits source.bytes site _ hkind

/-! ## Members after a rewriting -/

/-- The replaced members are members of the pattern, and they go on binding the same props. -/
structure Rewriting.Fits (r : Rewriting) (members : List Node) : Prop where
  mem : ∀ x ∈ r.members, x.1 ∈ members
  name : ∀ x ∈ r.members, memberName? x.2 = memberName? x.1

/-- Nodes at one place are one node. -/
theorem eq_of_start_eq {l : List Node} {m n : Node} (h : (l.map (·.start)).Nodup) (hm : m ∈ l)
    (hn : n ∈ l) (hstart : m.start = n.start) : m = n :=
  List.inj_on_of_nodup_map h hm hn hstart

namespace Rewriting

variable {r : Rewriting} {members : List Node}

theorem member_cases (hfits : r.Fits members) (hmembers : (members.map (·.start)).Nodup) {m : Node}
    (hm : m ∈ members) :
    (m, r.member m) ∈ r.members ∨ ((∀ x ∈ r.members, x.1 ≠ m) ∧ r.member m = m) := by
  unfold member
  cases hfound : r.members.find? (·.1.start == m.start) with
  | none =>
    refine Or.inr ⟨fun x hx hsame => ?_, rfl⟩
    have hno := List.find?_eq_none.mp hfound x hx
    rw [hsame] at hno
    exact hno (beq_self_eq_true m.start)
  | some x =>
    have hx := List.mem_of_find?_eq_some hfound
    have hstart : x.1.start = m.start := by simpa using List.find?_some hfound
    have hsame := eq_of_start_eq hmembers (hfits.mem x hx) hm hstart
    exact Or.inl (hsame ▸ hx)

theorem member_of_mem (hfits : r.Fits members) (hmembers : (members.map (·.start)).Nodup)
    (honce : (r.members.map (·.1.start)).Nodup) {x : Node × Node} (hx : x ∈ r.members) :
    r.member x.1 = x.2 := by
  obtain hmem | ⟨hno, -⟩ := member_cases hfits hmembers (hfits.mem x hx)
  · have hsame := List.inj_on_of_nodup_map honce hmem hx rfl
    rw [← hsame]
  · exact absurd rfl (hno x hx)

/-- The member that counts for a prop is what becomes of the one that counted. -/
theorem lastMember?_after (hfits : r.Fits members) (hmembers : (members.map (·.start)).Nodup)
    (prop : String) :
    lastMember? (members.map r.member) prop = (lastMember? members prop).map r.member := by
  refine lastMember?_map (fun m hm => ?_) prop
  obtain hmem | ⟨-, hself⟩ := member_cases hfits hmembers hm
  · exact hfits.name _ hmem
  · rw [hself]

end Rewriting

/-- A pattern and an object as they are read: no two members and no two entries stand at one place,
the members are regular, and the pairs are those of the object. -/
structure Tidy (pattern : Node) (defaults : Option Site.Defaults) : Prop where
  members : (pattern.parts.map (·.start)).Nodup
  regular : ∀ m ∈ pattern.parts, regular m = true
  entries : ((entriesOf defaults).map (·.start)).Nodup
  pairs : ∀ d, defaults = some d → d.pairs = d.object.parts.filterMap asPair?

end Defaults
end Transplant
