import Transplant.Component.Props
import Transplant.Proofs.Comments.Site

/-!
# The props of a component without comments

The props of a component are read off three places: the parameter, the type of the parameter, and
the object of default props.  For each of them the reading is the same without comments, and so is
the list of props that is put together from all three, defaults and all.

* `Site.defaults?_uncommented`: the object of default props
* `Props.typings_uncommented`: what types say
* `Props.extract_uncommented`: all props
-/

namespace Transplant

open Node Expression

namespace Site

/-! ## The object of default props -/

/-- An entry without the comments in it. -/
def DefaultPair.uncommented (p : DefaultPair) : DefaultPair :=
  { p with pair := p.pair.uncommented, value := p.value.uncommented }

/-- The defaults without the comments in them. -/
def Defaults.uncommented (d : Defaults) : Defaults where
  statement := d.statement.uncommented
  object := d.object.uncommented
  pairs := d.pairs.map DefaultPair.uncommented

theorem pairsOf_uncommented {object : Node} (h : object.Tidy) :
    pairsOf object.uncommented = (pairsOf object).map DefaultPair.uncommented ∧
      ∀ p ∈ pairsOf object, p.value.Tidy := by
  have hpair : ∀ pair ∈ object.parts.filter (·.kind == .pair), pair.Tidy := fun pair hpair =>
    h.of_mem_parts (List.mem_of_mem_filter hpair)
  refine ⟨?_, fun p hp => ?_⟩
  · unfold pairsOf
    rw [parts_uncommented, List.filter_map, List.filterMap_map, List.map_filterMap]
    simp only [Function.comp_def, kind_uncommented]
    refine List.filterMap_congr fun pair hmem => ?_
    rw [child?_uncommented (hpair pair hmem), child?_uncommented (hpair pair hmem)]
    cases pair.child? .key <;> cases pair.child? .value <;>
      simp [DefaultPair.uncommented]
  · obtain ⟨pair, hmem, hentry⟩ := List.mem_filterMap.mp hp
    split at hentry
    · rename_i key value _ hvalue
      obtain rfl := Option.some.inj hentry
      exact (hpair pair hmem).of_child? hvalue
    · cases hentry

/-- The defaults that the two sides of an assignment give to one of the names. -/
def assigned? (names : List String) (statement left right : Node) : Option Defaults :=
  if left.kind != .memberExpression || right.kind != .object then none
  else (left.child? .object).bind fun object => (left.child? .property).bind fun property =>
    if !names.contains object.text || property.text != "defaultProps" then none
    else some ⟨statement, right, pairsOf right⟩

theorem defaultsIn?_eq (names : List String) (statement : Node) :
    defaultsIn? names statement =
      if statement.kind != .expressionStatement then none
      else statement.firstPart?.bind fun part =>
        if part.unwrap.kind != .assignmentExpression then none
        else (part.unwrap.child? .left).bind fun left =>
          (part.unwrap.child? .right).bind fun right =>
            assigned? names statement left right.unwrap := by
  unfold defaultsIn?
  split
  · rfl
  cases statement.firstPart? with
  | none => rfl
  | some part =>
    simp only [Option.bind_some]
    split
    · rename_i hkind
      exact if_pos hkind
    · rename_i hkind
      refine (if_neg hkind).trans ?_
      cases part.unwrap.child? .left <;> cases part.unwrap.child? .right <;> rfl

theorem assigned?_uncommented (names : List String) (statement : Node) {left right : Node}
    (hleft : left.Tidy) (hright : right.Tidy) :
    assigned? names statement.uncommented left.uncommented right.uncommented =
      (assigned? names statement left right).map Defaults.uncommented := by
  unfold assigned?
  rw [kind_uncommented, kind_uncommented, child?_uncommented hleft, child?_uncommented hleft,
    (pairsOf_uncommented hright).1]
  split
  · rfl
  refine bind_map_uncommented fun object _ => bind_map_uncommented fun property _ => ?_
  rw [text_uncommented, text_uncommented]
  split <;> rfl

theorem tidy_of_assigned? {names : List String} {statement left right : Node} (h : right.Tidy)
    {d : Defaults} (hd : assigned? names statement left right = some d) :
    ∀ p ∈ d.pairs, p.value.Tidy := by
  unfold assigned? at hd
  split at hd
  · cases hd
  obtain ⟨object, -, hd⟩ := Option.bind_eq_some_iff.mp hd
  obtain ⟨property, -, hd⟩ := Option.bind_eq_some_iff.mp hd
  split at hd
  · cases hd
  · obtain rfl := Option.some.inj hd
    exact (pairsOf_uncommented h).2

theorem defaultsIn?_uncommented (names : List String) {statement : Node} (h : statement.Tidy) :
    defaultsIn? names statement.uncommented =
        (defaultsIn? names statement).map Defaults.uncommented ∧
      ∀ d, defaultsIn? names statement = some d → ∀ p ∈ d.pairs, p.value.Tidy := by
  rw [defaultsIn?_eq, defaultsIn?_eq names statement, kind_uncommented, firstPart?_uncommented]
  split
  · exact ⟨rfl, fun d hd => by cases hd⟩
  refine ⟨bind_map_uncommented fun part hpart => ?_, fun d hd => ?_⟩
  · have htidy := h.of_firstPart? hpart
    rw [unwrap_uncommented htidy, kind_uncommented, child?_uncommented htidy.unwrap,
      child?_uncommented htidy.unwrap]
    split
    · rfl
    refine bind_map_uncommented fun left hleft => bind_map_uncommented fun right hright => ?_
    have hright := htidy.unwrap.of_child? hright
    rw [unwrap_uncommented hright]
    exact assigned?_uncommented names statement (htidy.unwrap.of_child? hleft) hright.unwrap
  · obtain ⟨part, hpart, hd⟩ := Option.bind_eq_some_iff.mp hd
    split at hd
    · cases hd
    obtain ⟨left, hleft, hd⟩ := Option.bind_eq_some_iff.mp hd
    obtain ⟨right, hright, hd⟩ := Option.bind_eq_some_iff.mp hd
    exact tidy_of_assigned? ((h.of_firstPart? hpart).unwrap.of_child? hright).unwrap hd

theorem defaults?_uncommented {root : Node} (h : root.Tidy) (site : Site) :
    defaults? root.uncommented site.uncommented =
        (defaults? root site).map Defaults.uncommented ∧
      ∀ d, defaults? root site = some d → ∀ p ∈ d.pairs, p.value.Tidy := by
  unfold defaults?
  refine ⟨?_, fun d hd => ?_⟩
  · rw [parts_uncommented, List.findSome?_map, List.map_findSome?, ← List.head?_filterMap,
      ← List.head?_filterMap]
    congr 1
    exact List.filterMap_congr fun c hc => (defaultsIn?_uncommented _ (h.of_mem_parts hc)).1
  · obtain ⟨c, hc, hd⟩ := List.exists_of_findSome?_eq_some hd
    exact (defaultsIn?_uncommented _ (h.of_mem_parts hc)).2 d hd

end Site

namespace Props

/-! ## Types -/

theorem clauseType?_uncommented (clause : Node) :
    clauseType? clause.uncommented = (clauseType? clause).map uncommented := by
  rw [clauseType?, kind_uncommented, firstPart?_uncommented, clauseType?]
  split <;> rfl

theorem tidy_clauseType? {clause t : Node} (h : clause.Tidy) (ht : clauseType? clause = some t) :
    t.Tidy := by
  unfold clauseType? at ht
  split at ht
  · exact h.of_firstPart? ht
  · obtain rfl := Option.some.inj ht
    exact h

theorem kindsOfTypes_eq (n : Node) : kindsOfTypes n.children = n.parts.map kindOfType := by
  unfold parts namedChildren
  generalize n.children = l
  induction l with
  | nil => rw [kindsOfTypes]; rfl
  | cons c rest ih =>
    rw [kindsOfTypes, ih]
    by_cases htoken : c.kind = .token
    · simp [htoken, isNamed]
    · by_cases hcomment : c.kind = .comment
      · simp [hcomment, isNamed]
      · simp [htoken, hcomment, isNamed]

theorem kindOfType_eq (n : Node) :
    kindOfType n =
      if n.kind == .predefinedType then
        if n.text = "string" then .string
        else if n.text = "number" then .number
        else if n.text = "boolean" then .boolean
        else .unknown
      else if n.kind == .functionType then .function
      else if n.kind == .arrayType || Text.startsWith n.text "Array<" ||
          Text.startsWith n.text "ReadonlyArray<" then .array
      else if n.kind == .objectType then .object
      else if n.kind == .literalType then (n.firstPart?.map kindOf).getD .unknown
      else if n.kind == .unionType then agreed (n.parts.map kindOfType)
      else if markupTypes.contains (baseName n.text) then .node
      else .unknown := by
  rw [← kindsOfTypes_eq, ← find?_part]
  cases n with
  | mk kind role start stop line text children =>
    rw [kindOfType]
    cases children.find? fun c => c.kind != .token && c.kind != .comment <;> rfl

theorem kindOfType_uncommented {n : Node} (h : n.Tidy) :
    kindOfType n.uncommented = kindOfType n := by
  induction n using induct_below with
  | _ n ih =>
    have hparts : n.uncommented.parts.map kindOfType = n.parts.map kindOfType := by
      rw [parts_uncommented, List.map_map]
      exact List.map_congr_left fun c hc => ih c (mem_below_of_mem_parts hc) (h.of_mem_parts hc)
    have hfirst : n.uncommented.firstPart?.map kindOf = n.firstPart?.map kindOf := by
      rw [firstPart?_uncommented, Option.map_map]
      exact Option.map_congr fun c hc => kindOf_uncommented (h.of_firstPart? hc)
    rw [kindOfType_eq, kindOfType_eq n, kind_uncommented, text_uncommented, hparts, hfirst]

/-- The members that a node declares under a name, if it is a declaration of that name. -/
def membersAt? (name : String) (n : Node) : Option (Option Node) :=
  if n.kind == .interfaceDeclaration && (n.child? .name).any (·.text == name) then
    some (n.child? .body)
  else if n.kind == .typeAliasDeclaration && (n.child? .name).any (·.text == name) &&
      (n.child? .value).any (·.kind == .objectType) then
    some (n.child? .value)
  else none

theorem membersAt?_uncommented (name : String) {n : Node} (h : n.Tidy) :
    membersAt? name n.uncommented = (membersAt? name n).map (Option.map uncommented) := by
  rw [membersAt?, kind_uncommented, child?_uncommented h, child?_uncommented h,
    child?_uncommented h, any_map_uncommented fun c _ => by rw [text_uncommented],
    any_map_uncommented fun c _ => by rw [kind_uncommented], membersAt?]
  split
  · rfl
  · split <;> rfl

theorem tidy_of_membersAt? {name : String} {n body : Node} (h : n.Tidy)
    (hbody : membersAt? name n = some (some body)) : body.Tidy := by
  unfold membersAt? at hbody
  split at hbody
  · exact h.of_child? (Option.some.inj hbody)
  · split at hbody
    · exact h.of_child? (Option.some.inj hbody)
    · cases hbody

theorem membersAt?_comment (name : String) {n : Node} (h : n.kind = .comment) :
    membersAt? name n = none := by
  simp [membersAt?, h]

theorem declaredMembers?_uncommented {root : Node} (h : root.Tidy) (name : String) :
    declaredMembers? root.uncommented name = (declaredMembers? root name).map uncommented ∧
      ∀ body, declaredMembers? root name = some body → body.Tidy := by
  have heq (t : Node) : declaredMembers? t name = (t.walk.findSome? (membersAt? name)).join := rfl
  refine ⟨?_, fun body hbody => ?_⟩
  · rw [heq, heq root, walk_uncommented h, findSome?_uncommented (φ := Option.map uncommented)
      (fun n hn hkind => membersAt?_uncommented name (h.of_mem_walk hn hkind))
      (fun n _ hkind => membersAt?_comment name hkind)]
    cases root.walk.findSome? (membersAt? name) <;> rfl
  · rw [heq, Option.join_eq_some_iff] at hbody
    obtain ⟨n, hn, hbody⟩ := List.exists_of_findSome?_eq_some hbody
    refine tidy_of_membersAt? (h.of_mem_walk hn fun hkind => ?_) hbody
    rw [membersAt?_comment name hkind] at hbody
    cases hbody

theorem typeMembers?_eq (root n : Node) :
    typeMembers? root n =
      if n.kind == .objectType then some n
      else if n.kind == .genericType then
        (n.children.find? (·.kind == .typeArguments)).bind fun a =>
          a.firstPart?.bind (typeMembers? root)
      else if n.kind == .typeIdentifier then declaredMembers? root n.text
      else none := by
  have hfirst (a : Node) :
      firstMembers? root a.children = a.firstPart?.bind (typeMembers? root) := by
    rw [eq_firstPart (F := firstMembers? root) (by rw [firstMembers?])
      (fun c rest => by rw [firstMembers?])]
    cases a.firstPart? <;> rfl
  have harguments : argumentMembers? root n.children =
      (n.children.find? (·.kind == .typeArguments)).bind fun a =>
        a.firstPart?.bind (typeMembers? root) := by
    generalize n.children = l
    induction l with
    | nil => rw [argumentMembers?]; rfl
    | cons c rest ih =>
      rw [List.find?_cons]
      cases c with
      | mk kind role start stop line text children =>
        rw [argumentMembers?, ih,
          show firstMembers? root children = _ from
            hfirst ⟨kind, role, start, stop, line, text, children⟩]
        cases kind == .typeArguments <;> rfl
  rw [← harguments]
  cases n
  rw [typeMembers?]

theorem typeMembers?_uncommented {root : Node} (hroot : root.Tidy) {n : Node} (h : n.Tidy) :
    typeMembers? root.uncommented n.uncommented = (typeMembers? root n).map uncommented ∧
      ∀ body, typeMembers? root n = some body → body.Tidy := by
  induction n using induct_below with
  | _ n ih =>
    rw [typeMembers?_eq, typeMembers?_eq root n, kind_uncommented, text_uncommented,
      find?_kind_uncommented n (by decide)]
    split
    · refine ⟨rfl, fun body hbody => ?_⟩
      obtain rfl := Option.some.inj hbody
      exact h
    split
    · cases hfind : n.children.find? (·.kind == .typeArguments) with
      | none => exact ⟨rfl, fun body hbody => by cases hbody⟩
      | some a =>
        have hmem := List.mem_of_find?_eq_some hfind
        have hkind : a.kind = .typeArguments := by simpa using List.find?_some hfind
        have htidy := h.of_mem_children hmem (by rw [hkind]; decide)
        simp only [Option.map_some, Option.bind_some, firstPart?_uncommented]
        cases hpart : a.firstPart? with
        | none => exact ⟨rfl, fun body hbody => by cases hbody⟩
        | some c =>
          have hbelow : c ∈ walkAll n.children := mem_walkAll.mpr
            ⟨a, hmem, mem_walk_of_below (mem_below_of_mem_parts (List.mem_of_head? hpart))⟩
          exact ih c hbelow (htidy.of_firstPart? hpart)
    split
    · exact declaredMembers?_uncommented hroot n.text
    · exact ⟨rfl, fun body hbody => by cases hbody⟩

/-- What a member of a type says about the prop of its name. -/
def typingAt? (member : Node) : Option (String × Typing) :=
  (member.child? .name).map fun name =>
    let kind := (((member.child? .typing).bind clauseType?).map kindOfType).getD .unknown
    (name.text, ⟨kind, member.children.any (·.isToken "?")⟩)

theorem typingAt?_uncommented {member : Node} (h : member.Tidy) :
    typingAt? member.uncommented = typingAt? member := by
  have hkind : ((member.uncommented.child? .typing).bind clauseType?).map kindOfType =
      ((member.child? .typing).bind clauseType?).map kindOfType := by
    rw [child?_uncommented h, bind_map_uncommented fun clause _ => clauseType?_uncommented clause,
      Option.map_map]
    refine Option.map_congr fun t ht => ?_
    obtain ⟨clause, hclause, ht⟩ := Option.bind_eq_some_iff.mp ht
    exact kindOfType_uncommented (tidy_clauseType? (h.of_child? hclause) ht)
  rw [typingAt?, hkind, any_isToken_uncommented, child?_uncommented h, Option.map_map, typingAt?]
  simp only [Function.comp_def, text_uncommented]

theorem typings_eq (root : Node) (clause : Option Node) :
    typings root clause =
      (((clause.bind clauseType?).bind (typeMembers? root)).map fun body =>
        (body.parts.filter (·.kind == .propertySignature)).filterMap typingAt?).getD [] := by
  unfold typings
  cases (clause.bind clauseType?).bind (typeMembers? root) <;> rfl

theorem typings_uncommented {root : Node} (hroot : root.Tidy) {clause : Option Node}
    (h : ∀ c, clause = some c → c.Tidy) :
    typings root.uncommented (clause.map uncommented) = typings root clause := by
  have htype : ∀ t, clause.bind clauseType? = some t → t.Tidy := fun t ht => by
    obtain ⟨c, hc, ht⟩ := Option.bind_eq_some_iff.mp ht
    exact tidy_clauseType? (h c hc) ht
  rw [typings_eq, typings_eq root, bind_map_uncommented fun c _ => clauseType?_uncommented c,
    bind_map_uncommented fun t ht => (typeMembers?_uncommented hroot (htype t ht)).1,
    Option.map_map]
  congr 1
  refine Option.map_congr fun body hbody => ?_
  obtain ⟨t, ht, hbody⟩ := Option.bind_eq_some_iff.mp hbody
  have hbody := (typeMembers?_uncommented hroot (htype t ht)).2 body hbody
  rw [Function.comp_apply, parts_uncommented, List.filter_map, List.filterMap_map]
  simp only [Function.comp_def, kind_uncommented]
  exact List.filterMap_congr fun member hmember =>
    typingAt?_uncommented (hbody.of_mem_parts (List.mem_of_mem_filter hmember))

theorem variableTyping?_uncommented {statement : Node} (h : statement.Tidy) :
    variableTyping? statement.uncommented = (variableTyping? statement).map uncommented ∧
      ∀ t, variableTyping? statement = some t → t.Tidy := by
  unfold variableTyping?
  refine ⟨?_, fun t ht => ?_⟩
  · rw [walk_uncommented h]
    refine findSome?_uncommented (fun n hn hkind => ?_) fun n _ hkind => by simp [hkind]
    rw [kind_uncommented, child?_uncommented (h.of_mem_walk hn hkind)]
    split <;> rfl
  · obtain ⟨n, hn, ht⟩ := List.exists_of_findSome?_eq_some ht
    split at ht
    · rename_i hkind
      have hkind : n.kind = .variableDeclarator := by simpa using hkind
      exact (h.of_mem_walk hn (by rw [hkind]; decide)).of_child? ht
    · cases ht

/-! ## Patterns and reads -/

theorem make_uncommented (types : List (String × Typing)) (name : String) {dflt : Option Node}
    (h : ∀ e, dflt = some e → e.Tidy) :
    make types name (dflt.map uncommented) = make types name dflt := by
  cases dflt with
  | none => rfl
  | some e =>
    simp only [make, Option.map_some, kindOf_uncommented (h e rfl), text_uncommented,
      Option.isSome_some, Option.isNone_some, Option.all_some, freeNames_uncommented (h e rfl)]

theorem ofMember?_uncommented {member : Node} (h : member.Tidy) :
    ofMember? member.uncommented =
        (ofMember? member).map (fun p => (p.1, p.2.map uncommented)) ∧
      ∀ p, ofMember? member = some p → ∀ e, p.2 = some e → e.Tidy := by
  unfold ofMember?
  rw [kind_uncommented, text_uncommented]
  split
  · refine ⟨rfl, fun p hp e he => ?_⟩
    obtain rfl := Option.some.inj hp
    cases he
  · rw [child?_uncommented h, child?_uncommented h]
    cases member.child? .left with
    | none => exact ⟨rfl, fun p hp => by cases hp⟩
    | some left =>
      refine ⟨by simp, fun p hp e he => ?_⟩
      obtain rfl := Option.some.inj hp
      exact h.of_child? he
  · rw [child?_uncommented h, child?_uncommented h,
      bind_map_uncommented (f := fun value : Node =>
        if value.kind == .assignmentPattern then value.child? .right else none)
        (φ := uncommented) fun value hvalue => by
          rw [kind_uncommented, child?_uncommented (h.of_child? hvalue)]
          split <;> rfl]
    cases member.child? .key with
    | none => exact ⟨rfl, fun p hp => by cases hp⟩
    | some key =>
      refine ⟨by simp, fun p hp e he => ?_⟩
      obtain rfl := Option.some.inj hp
      obtain ⟨value, hvalue, he⟩ := Option.bind_eq_some_iff.mp he
      split at he
      · exact (h.of_child? hvalue).of_child? he
      · cases he
  · exact ⟨rfl, fun p hp => by cases hp⟩

theorem ofPattern_uncommented (types : List (String × Typing)) {pattern : Node} (h : pattern.Tidy) :
    ofPattern types pattern.uncommented = ofPattern types pattern := by
  rw [ofPattern, parts_uncommented, List.filterMap_map, ofPattern]
  refine List.filterMap_congr fun member hmember => ?_
  obtain ⟨hsame, htidy⟩ := ofMember?_uncommented (h.of_mem_parts hmember)
  rw [Function.comp_apply, hsame, Option.map_map]
  refine Option.map_congr fun p hp => ?_
  simp only [Function.comp_apply, start_uncommented, make_uncommented types p.1 (htidy p hp)]

theorem restNames_uncommented (pattern : Node) :
    restNames pattern.uncommented = restNames pattern := by
  simp only [restNames, parts_uncommented, List.filter_map, List.flatMap_map, Function.comp_def,
    kind_uncommented, List.map_map, text_uncommented]

theorem readAt_uncommented (types : List (String × Typing)) (param : String) {n : Node}
    (h : n.Tidy) : readAt types param n.uncommented = readAt types param n := by
  unfold readAt
  rw [kind_uncommented]
  split
  case h_3 | h_4 =>
    rw [firstPart?_uncommented,
      any_map_uncommented fun t _ => by rw [kind_uncommented, text_uncommented]]
  case h_5 => rfl
  · rw [child?_uncommented h, child?_uncommented h]
    cases hname : n.child? .name with
    | none => rfl
    | some name =>
      cases hvalue : n.child? .value with
      | none => rfl
      | some value =>
        simp only [Option.map_some, unwrap_uncommented (h.of_child? hvalue), kind_uncommented,
          text_uncommented, ofPattern_uncommented types (h.of_child? hname), restNames_uncommented]
  · rw [child?_uncommented h, child?_uncommented h]
    cases n.child? .object with
    | none => rfl
    | some object =>
      cases n.child? .property with
      | none => rfl
      | some property =>
        simp only [Option.map_some, kind_uncommented, text_uncommented, start_uncommented]

theorem readAt_comment (types : List (String × Typing)) (param : String) {n : Node}
    (h : n.kind = .comment) : readAt types param n = ([], []) := by
  simp only [readAt, h]

/-! ## All props -/

theorem mergeDefault_uncommented (props : List PropSpec) {pair : Site.DefaultPair}
    (h : pair.value.Tidy) : mergeDefault props pair.uncommented = mergeDefault props pair := by
  simp only [mergeDefault, Site.DefaultPair.uncommented, kindOf_uncommented h, text_uncommented,
    freeNames_uncommented h]

theorem ofParameter_uncommented {root : Node} (hroot : root.Tidy) {site : Site} (hsite : site.Tidy)
    {param : Node} (h : param.Tidy) :
    ofParameter root.uncommented site.uncommented param.uncommented =
      ofParameter root site param := by
  obtain ⟨hpattern, hown⟩ := Function.tidy_pattern h
  obtain ⟨hvariable, hvariableTidy⟩ := variableTyping?_uncommented hsite.2
  have htypes : typings root.uncommented (((Function.pattern param).2.map uncommented).orElse
      fun _ => variableTyping? site.uncommented.statement) =
      typings root ((Function.pattern param).2.orElse fun _ => variableTyping? site.statement) := by
    rw [show variableTyping? site.uncommented.statement = _ from hvariable]
    cases hclause : (Function.pattern param).2 with
    | none => exact typings_uncommented hroot hvariableTidy
    | some clause => exact typings_uncommented hroot fun c hc => hown c (hclause.trans hc)
  have hreads {α : Type} (types : List (String × Typing)) (name : String)
      (part : List (Nat × PropSpec) × List String → List α) (hnone : part ([], []) = []) :
      (site.uncommented.callable.walk.map (readAt types name)).flatMap part =
        (site.callable.walk.map (readAt types name)).flatMap part := by
    rw [List.flatMap_map, List.flatMap_map,
      show site.uncommented.callable.walk = _ from walk_uncommented hsite.1]
    refine flatMap_uncommented (fun n hn hkind => ?_) fun n _ hkind => ?_
    · rw [readAt_uncommented types name (hsite.1.of_mem_walk hn hkind)]
    · rw [readAt_comment types name hkind, hnone]
  simp only [ofParameter, Function.pattern_uncommented h, kind_uncommented, text_uncommented,
    htypes, ofPattern_uncommented _ hpattern, restNames_uncommented]
  rw [hreads _ _ (·.1) rfl, hreads _ _ (·.2) rfl]

/-- The props of a tidy tree are the same without the comments. -/
theorem extract_uncommented {root : Node} (hroot : root.Tidy) {site : Site} (hsite : site.Tidy) :
    extract root.uncommented site.uncommented = extract root site := by
  obtain ⟨hdefaults, hpairs⟩ := Site.defaults?_uncommented hroot site
  unfold extract
  rw [show Function.params site.uncommented.callable = _ from Function.params_uncommented hsite.1,
    hdefaults]
  cases hparams : Function.params site.callable with
  | nil => rfl
  | cons param rest =>
    have hparam := Function.tidy_of_mem_params hsite.1 (by rw [hparams]; exact List.mem_cons_self)
    simp only [List.map_cons, ofParameter_uncommented hroot hsite hparam]
    cases hd : Site.defaults? root site with
    | none => rfl
    | some d =>
      simp only [Option.map_some, Site.Defaults.uncommented, List.foldl_map]
      congr 1
      exact List.foldl_ext _ _ _ fun props pair hpair =>
        mergeDefault_uncommented props (hpairs d hd pair hpair)

theorem reference?_uncommented (x : Extracted) {e : Node} (h : e.Tidy) :
    x.reference? e.uncommented = x.reference? e := by
  simp only [Extracted.reference?, unwrap_uncommented h, kind_uncommented, text_uncommented,
    child?_uncommented h.unwrap]
  cases x.param <;> cases e.unwrap.child? .object <;> cases e.unwrap.child? .property <;>
    simp only [Option.map_some, Option.map_none, text_uncommented]

end Props
end Transplant
