import Transplant.Plan.Registry
import Transplant.Proofs.Plan.Target
import Mathlib.Data.List.Pairwise

/-!
# What a registry keeps apart

The components of a batch are put to the registry one after the other: each is planned, and its plan
is registered.  Of what has been accepted, no two plans share the name of a component or the path of
a test, and two plans share a target path only if the later one was given its path.

## The invariant

The two tables of the registry do not tell the same about what has been accepted.  The table of
names knows every accepted plan by its own source, because no name is taken twice.  The table of
paths knows only the first plan at each path, since paths that were given may be taken again.
`Knows` says both, for the list of all plans accepted so far; what matters of the owner of a path is
only that it is the source of *some* accepted plan, hence not the source of the next one.

## Tests

The path of a test is made of the name of the component and the ending of its file.  The name can be
read off it, as long as no dot is in the name: it is what stands before the first dot
(`testPath_inj`).

* `Batch.enroll`: one component is planned and registered
* `Batch.enroll_cases`: a component is accepted, or it is a naming collision and nothing changes
* `Registry.Knows.accept`, `Batch.pairwise_acceptedFrom`: the step, and the run
* `Batch.enrolled_apart`: all of it for a sequence of components
-/

namespace Transplant

open Lexical

namespace Batch

variable {b : Batch}

/-! ## New names within one file -/

/-- No two names of the file get the same new name. -/
def InjectiveRenames (p : Plan) : Prop :=
  ∀ old old' new, p.renames.get? old = some new → p.renames.get? old' = some new → old = old'

theorem sharedFrom?_eq_none {seen l : List (String × String)} (h : sharedFrom? seen l = none) :
    (∀ e ∈ l, ∀ s ∈ seen, s.2 ≠ e.2) ∧ l.Pairwise fun a b => a.2 ≠ b.2 := by
  induction l generalizing seen with
  | nil => exact ⟨fun _ he => absurd he List.not_mem_nil, List.Pairwise.nil⟩
  | cons first rest ih =>
    rw [sharedFrom?] at h
    split at h
    · cases h
    · rename_i hfind
      obtain ⟨hrest, hpairs⟩ := ih h
      have hseen : ∀ s ∈ seen, s.2 ≠ first.2 := fun s hs => by
        simpa using List.find?_eq_none.mp hfind s hs
      refine ⟨fun e he s hs => ?_, List.pairwise_cons.mpr ⟨fun e he => ?_, hpairs⟩⟩
      · rcases List.mem_cons.mp he with rfl | he
        · exact hseen s hs
        · exact hrest e he s (List.mem_append_left _ hs)
      · exact hrest e he first (by simp)

theorem kind_of_sharedFrom? {seen l : List (String × String)} {c : Conflict}
    (h : sharedFrom? seen l = some c) : c.kind = .namingCollision := by
  induction l generalizing seen with
  | nil => cases h
  | cons first rest ih =>
    rw [sharedFrom?] at h
    split at h
    · obtain rfl := Option.some.inj h
      rfl
    · exact ih h

theorem injective_of_shared? {t : Table String} (h : shared? t = none) {old old' new : String}
    (hold : t.get? old = some new) (hold' : t.get? old' = some new) : old = old' := by
  by_contra hne
  have hpairs := (sharedFrom?_eq_none h).2
  have hsymm : Std.Symm fun a b : String × String => a.2 ≠ b.2 := ⟨fun _ _ hab => hab.symm⟩
  exact hpairs.forall (Table.mem_entries_iff.mpr hold) (Table.mem_entries_iff.mpr hold')
    (fun heq => hne (Prod.mk.inj heq).1) rfl

theorem lookup_filterMap {f : String → Option String} {names : List String} {k v : String} :
    (names.filterMap fun name => (f name).map (name, ·)).lookup k = some v ↔
      k ∈ names ∧ f k = some v := by
  induction names with
  | nil => simp
  | cons name rest ih =>
    rw [List.filterMap_cons, List.mem_cons]
    cases hname : f name with
    | none =>
      rw [Option.map_none, ih]
      refine ⟨fun h => ⟨Or.inr h.1, h.2⟩, fun h => ⟨h.1.resolve_left ?_, h.2⟩⟩
      rintro rfl
      rw [hname] at h
      cases h.2
    | some new =>
      rw [Option.map_some, List.lookup_cons]
      by_cases hk : k = name
      · subst hk
        simp [hname]
      · simp [hk, beq_false_of_ne hk, ih]

/-- The name that the configuration gives to something, unless that is its own. -/
def override? (b : Batch) (name : String) : Option String :=
  (b.naming.renames.get? name).filter (· ≠ name)

/-- The new names of a file are those of its component and of the components that it uses. -/
theorem get?_renamesOf_iff {d : Descriptor} {old new : String} :
    (b.renamesOf d).get? old = some new ↔
      (old = d.name ∨ old ∈ d.childRefs) ∧ b.override? old = some new := by
  rw [renamesOf, Table.get?_ofPairs, ← List.filterMap_reverse]
  refine lookup_filterMap.trans ?_
  rw [List.mem_reverse, List.mem_cons, Text.sort, List.mem_mergeSort]
  rfl

/-- New names of a file come from the configuration. -/
theorem get?_renamesOf {d : Descriptor} {old new : String}
    (h : (b.renamesOf d).get? old = some new) : b.naming.renames.get? old = some new :=
  (Option.filter_eq_some_iff.mp (get?_renamesOf_iff.mp h).2).1

/-! ## Plans -/

/-- The plan of a component at a place, before conflicts are looked for. -/
def planAt (b : Batch) (d : Descriptor) (place : Path) (given : Bool) : Plan where
  descriptor := d
  targetPath := b.root ++ place
  renames := b.renamesOf d
  rules := b.redirects.rules
  pathOverridden := given

theorem plan_eq {d : Descriptor} {place : Path} {given : Bool} {dir : String}
    (hdir : b.naming.subdir = .text dir)
    (hplace : b.targetOf d.sourcePath (some d.name) = .ok (place, given)) :
    b.plan d = match shared? (b.renamesOf d) with
      | some c => .error (.refused (.of (b.planAt d place given) c))
      | none => .ok (b.planAt d place given) := by
  have hroot : b.root? = .ok b.root := by
    rw [root?, hdir]
  simp only [plan, hplace, hroot, Except.mapError, bind, Except.bind]
  rfl

/-- A file with a name has a place. -/
theorem exists_place (h : b.RenamesToIdentifiers) {source : String} (component : Option String)
    (hname : (Path.ofString source).name ≠ "") :
    ∃ place given, b.targetOf source component = .ok (place, given) := by
  cases hget : b.naming.pathOverrides.get? source with
  | some text => exact ⟨Path.ofString text, true, by simp [targetOf, hget]⟩
  | none => exact ⟨_, false, targetOf_of_none h component hget hname⟩

/-- A plan is the one at the place of its file. -/
theorem plan_eq_planAt {d : Descriptor} {p : Plan} (h : b.plan d = .ok p) :
    ∃ place given, b.targetOf d.sourcePath (some d.name) = .ok (place, given) ∧
      p = b.planAt d place given := by
  obtain ⟨place, given, hplace, -, -⟩ := plan_cases h
  refine ⟨place, given, hplace, ?_⟩
  cases hdir : b.naming.subdir with
  | text dir =>
    rw [plan_eq hdir hplace] at h
    split at h
    · cases h
    · exact (Except.ok.inj h).symm
  | other shown kind => simp [plan, hplace, root?, hdir, Except.mapError, bind, Except.bind] at h

/-- A component keeps its name, or it gets an identifier. -/
theorem targetName_cases (h : b.RenamesToIdentifiers) (d : Descriptor) (place : Path)
    (given : Bool) : (b.planAt d place given).targetName = d.name ∨
      Text.isIdentifier (b.planAt d place given).targetName = true := by
  show ((b.renamesOf d).get? d.name).getD d.name = d.name ∨
    Text.isIdentifier (((b.renamesOf d).get? d.name).getD d.name) = true
  cases hget : (b.renamesOf d).get? d.name with
  | none => exact Or.inl rfl
  | some new => exact Or.inr (h _ new (get?_renamesOf hget))

/-- The name of a component after the migration has neither dots nor slashes, if it had none. -/
theorem chars_targetName (h : b.RenamesToIdentifiers) {d : Descriptor} (place : Path)
    (given : Bool) (hdot : '.' ∉ d.name.toList) (hslash : '/' ∉ d.name.toList) :
    '.' ∉ (b.planAt d place given).targetName.toList ∧
      '/' ∉ (b.planAt d place given).targetName.toList := by
  rcases targetName_cases h d place given with hsame | hident
  · rw [hsame]
    exact ⟨hdot, hslash⟩
  · exact (Text.chars_of_isIdentifier hident).2

/-! ## Tests -/

/-- The directory for the batch has a name. -/
theorem directory_ne_nil (b : Batch) : (Path.ofString b.naming.directory).parts ≠ [] := by
  intro hnil
  -- its first component begins with a letter, so it does not disappear when the path is read
  obtain ⟨part, parts, hsplit⟩ : ∃ part parts,
      Text.splitList '/' b.naming.directory.toList = ('c' :: part) :: parts := by
    rw [Naming.directory, Naming.directoryFor, String.toList_append,
      show "components_".toList = 'c' :: "omponents_".toList from rfl, List.cons_append,
      Text.splitList, if_neg (by decide)]
    cases hrest : Text.splitList '/' ("omponents_".toList ++ b.naming.suffix.toList) with
    | nil => exact absurd hrest (Text.splitList_ne_nil _ _)
    | cons part parts => exact ⟨part, parts, rfl⟩
  have hfirst : String.ofList ('c' :: part) ∈ Text.splitAll '/' b.naming.directory := by
    rw [Text.splitAll, hsplit]
    exact List.mem_cons_self
  have hkept : ∀ s : String, s.toList.head? ≠ some 'c' → String.ofList ('c' :: part) ≠ s := by
    rintro s hs rfl
    rw [String.toList_ofList] at hs
    exact hs rfl
  refine List.filter_eq_nil_iff.mp hnil _ hfirst ?_
  rw [Bool.and_eq_true, decide_eq_true_eq, decide_eq_true_eq]
  exact ⟨hkept "" (by decide), hkept "." (by decide)⟩

/-- The last component of a target path has no slash: it is one of the place, or else one of the
directory for the batch. -/
theorem slash_notMem_name {place : Path} (hplace : place.Sound) :
    '/' ∉ (b.root ++ place).name.toList := by
  by_cases hnil : place.parts = []
  · by_cases hrel : place.root = ""
    · have hroot : b.root ++ place = b.root := by
        rw [Path.append_of_relative hrel, hnil, List.append_nil]
      have hsound := Path.sound_ofString b.naming.directory
      rw [hroot, root, Path.child, Path.name_append b.directory_ne_nil]
      exact (hsound.parts _ (Path.name_mem (Path.name_ne_empty hsound b.directory_ne_nil))).2
    · rw [show b.root ++ place = place from if_neg hrel, Path.name, hnil]
      decide
  · rw [Path.name_append hnil]
    exact (hplace.parts _ (Path.name_mem (Path.name_ne_empty hplace hnil))).2

/-- What stands before the first dot. -/
theorem takeWhile_dot {n rest : List Char} (h : '.' ∉ n) :
    (n ++ '.' :: rest).takeWhile (· ≠ '.') = n := by
  rw [List.takeWhile_append_of_pos, List.takeWhile_cons_of_neg (by simp), List.append_nil]
  intro c hc
  simp only [ne_eq, decide_not, Bool.not_eq_eq_eq_not, Bool.not_true, decide_eq_false_iff_not]
  rintro rfl
  exact h hc

/-- The file of a test. -/
theorem testPath_eq {p : Plan} (hslash : '/' ∉ p.targetName.toList)
    (hname : '/' ∉ p.targetPath.name.toList) :
    ∃ ending, (p.targetPath.suffix ≠ "" → ending = p.targetPath.suffix) ∧
      b.testPath p = ⟨(b.root.child "__tests__").root,
        (b.root.child "__tests__").parts ++ [p.targetName ++ ".test" ++ ending]⟩ := by
  refine ⟨if p.targetPath.suffix = "" then ".js" else p.targetPath.suffix, fun h => if_neg h, ?_⟩
  generalize hending : (if p.targetPath.suffix = "" then ".js" else p.targetPath.suffix) = ending
  have hend : '/' ∉ ending.toList := by
    rw [← hending]
    split
    · decide
    · exact fun h => hname (Path.mem_name_of_mem_suffix h)
  have hlong : 2 < (p.targetName ++ ".test" ++ ending).toList.length := by
    have hfive : ".test".toList.length = 5 := by decide
    simp only [String.toList_append, List.length_append, hfive]
    omega
  have hfile : '/' ∉ (p.targetName ++ ".test" ++ ending).toList := by
    rw [String.toList_append, String.toList_append, List.mem_append, List.mem_append]
    rintro ((h | h) | h)
    · exact hslash h
    · exact absurd h (by decide)
    · exact hend h
  have hnamed := named_of_length hlong
  rw [testPath, hending, Path.child,
    Path.ofString_of_component hnamed.ne_empty hnamed.ne_here hfile, Path.append_of_relative rfl]

/-- Tests of components with different names are different files. -/
theorem testPath_inj {p q : Plan} (hp : '/' ∉ p.targetPath.name.toList)
    (hq : '/' ∉ q.targetPath.name.toList)
    (hpname : '.' ∉ p.targetName.toList ∧ '/' ∉ p.targetName.toList)
    (hqname : '.' ∉ q.targetName.toList ∧ '/' ∉ q.targetName.toList)
    (h : b.testPath p = b.testPath q) : p.targetName = q.targetName := by
  obtain ⟨e, -, he⟩ := testPath_eq (b := b) hpname.2 hp
  obtain ⟨e', -, he'⟩ := testPath_eq (b := b) hqname.2 hq
  rw [he, he', Path.mk.injEq, List.append_cancel_left_eq, List.cons.injEq] at h
  have hchars := congrArg String.toList h.2.1
  simp only [String.toList_append, show ".test".toList = '.' :: "test".toList from rfl,
    List.append_assoc, List.cons_append] at hchars
  rw [← String.toList_inj, ← takeWhile_dot hpname.1, hchars, takeWhile_dot hqname.1]

end Batch

/-! ## The registry -/

namespace Registry

variable {r r' : Registry} {p q : Plan} {accepted : List Plan}

/-- What the registry knows about the plans that have been accepted: every name with the source of
its plan, and every path with the source of one of the plans. -/
structure Knows (r : Registry) (accepted : List Plan) : Prop where
  names : ∀ q ∈ accepted, r.names.get? q.targetName = some q.descriptor.sourcePath
  paths : ∀ q ∈ accepted, (r.paths.lookup q.targetPath).isSome = true
  owners : ∀ path source, r.paths.lookup path = some source →
    ∃ q ∈ accepted, q.descriptor.sourcePath = source

theorem knows_empty : Knows empty [] where
  names _ h := absurd h List.not_mem_nil
  paths _ h := absurd h List.not_mem_nil
  owners _ _ h := by cases h

theorem register_cases (r : Registry) (p : Plan) :
    (∃ c, r.conflict? p = some c ∧ r.register p = .error (.of p c)) ∨
    (r.conflict? p = none ∧ r.register p = .ok (r.accept p)) := by
  unfold register
  cases r.conflict? p with
  | some c => exact Or.inl ⟨c, rfl, rfl⟩
  | none => exact Or.inr ⟨rfl, rfl⟩

theorem kind_of_conflict? {c : Conflict} (h : r.conflict? p = some c) :
    c.kind = .namingCollision := by
  unfold conflict? at h
  simp only at h
  split at h
  · obtain rfl := Option.some.inj h
    rfl
  · split at h
    · cases h
    · obtain ⟨owner, -, rfl⟩ := Option.map_eq_some_iff.mp h
      rfl

theorem ownedByOther_eq_none {owner : Option String} {source other : String}
    (h : ownedByOther owner source = none) (howner : owner = some other) : other = source := by
  subst howner
  by_contra hne
  simp [ownedByOther, Option.filter, hne] at h

/-- A plan without conflict shares its name with no accepted plan, and its path only if it was given
for its file. -/
theorem Knows.apart (h : Knows r accepted) (hfree : r.conflict? p = none)
    (hnew : ∀ q ∈ accepted, q.descriptor.sourcePath ≠ p.descriptor.sourcePath) :
    ∀ q ∈ accepted, q.targetName ≠ p.targetName ∧
      (q.targetPath = p.targetPath → p.pathOverridden = true) := by
  intro q hq
  unfold conflict? at hfree
  simp only at hfree
  split at hfree
  · cases hfree
  · rename_i hname
    refine ⟨fun hsame => ?_, fun hsame => ?_⟩
    · exact hnew q hq (ownedByOther_eq_none hname (hsame ▸ h.names q hq))
    · by_contra hgiven
      rw [if_neg hgiven, Option.map_eq_none_iff] at hfree
      obtain ⟨source, hlookup⟩ := Option.isSome_iff_exists.mp (h.paths q hq)
      obtain ⟨owner, howner, rfl⟩ := h.owners _ _ hlookup
      exact hnew owner howner (ownedByOther_eq_none hfree (hsame ▸ hlookup))

theorem lookup_accept (r : Registry) (p : Plan) (path : Path) :
    (r.accept p).paths.lookup path =
      (r.paths.lookup path).or
        (if path = p.targetPath then some p.descriptor.sourcePath else none) := by
  unfold accept
  simp only
  split
  · rename_i hsome
    by_cases hpath : path = p.targetPath
    · obtain ⟨owner, howner⟩ := Option.isSome_iff_exists.mp hsome
      rw [hpath, howner, Option.some_or]
    · rw [if_neg hpath, Option.or_none]
  · rw [List.lookup_append]
    by_cases hpath : path = p.targetPath
    · simp [hpath]
    · simp [hpath, List.lookup_cons, beq_false_of_ne hpath]

/-- The step: the registry knows the plan that it has accepted last, and still all others. -/
theorem Knows.accept (h : Knows r accepted) (hfree : r.conflict? p = none)
    (hnew : ∀ q ∈ accepted, q.descriptor.sourcePath ≠ p.descriptor.sourcePath) :
    Knows (r.accept p) (accepted ++ [p]) := by
  refine ⟨fun q hq => ?_, fun q hq => ?_, fun path source hlookup => ?_⟩
  · show (r.names.put p.targetName p.descriptor.sourcePath).get? q.targetName = _
    rw [Table.get?_put]
    rcases List.mem_append.mp hq with hq | hq
    · rw [if_neg (h.apart hfree hnew q hq).1, h.names q hq]
    · obtain rfl := List.mem_singleton.mp hq
      rw [if_pos rfl]
  · rw [lookup_accept, Option.isSome_or, Bool.or_eq_true]
    rcases List.mem_append.mp hq with hq | hq
    · exact Or.inl (h.paths q hq)
    · obtain rfl := List.mem_singleton.mp hq
      exact Or.inr (by rw [if_pos rfl]; rfl)
  · rw [lookup_accept, Option.or_eq_some_iff] at hlookup
    rcases hlookup with hold | ⟨-, hown⟩
    · obtain ⟨q, hq, hsource⟩ := h.owners path source hold
      exact ⟨q, List.mem_append_left _ hq, hsource⟩
    · split at hown
      · exact ⟨p, by simp, Option.some.inj hown⟩
      · cases hown

end Registry

/-! ## Sequences of components -/

namespace Batch

variable {b : Batch}

/-- Puts a component to the registry: it is planned, and the plan is registered. -/
def enroll (b : Batch) (r : Registry) (d : Descriptor) : Registry × Except PlanError Plan :=
  match b.plan d with
  | .error e => (r, .error e)
  | .ok p =>
    match r.register p with
    | .error refusal => (r, .error (.refused refusal))
    | .ok r' => (r', .ok p)

/-- The registry after some components. -/
def enrolled (b : Batch) (ds : List Descriptor) : Registry :=
  ds.foldl (fun r d => (b.enroll r d).1) Registry.empty

/-- The plans that are accepted of some components, from a given registry on. -/
def acceptedFrom (b : Batch) (r : Registry) : List Descriptor → List Plan
  | [] => []
  | d :: rest =>
    match b.enroll r d with
    | (r', .ok p) => p :: acceptedFrom b r' rest
    | (r', .error _) => acceptedFrom b r' rest

/-- The plans that are accepted of some components. -/
def accepted (b : Batch) (ds : List Descriptor) : List Plan := b.acceptedFrom Registry.empty ds

/-- The plan `q`, accepted after `p`, does not get in its way. -/
structure Apart (b : Batch) (p q : Plan) : Prop where
  name : p.targetName ≠ q.targetName
  test : b.testPath p ≠ b.testPath q
  path : p.targetPath = q.targetPath → q.pathOverridden = true

/-- The refusal of a component for a naming collision: it comes with the plan of the component, in
which the collision is recorded and nothing else. -/
def Collision (b : Batch) (d : Descriptor) (refusal : Refusal) : Prop :=
  refusal.conflict.kind = .namingCollision ∧
  ∃ place given, b.targetOf d.sourcePath (some d.name) = .ok (place, given) ∧
    refusal.plan = { b.planAt d place given with conflicts := [refusal.conflict] }

/-- A component as it is put to a registry: its file has a name, and its own name has neither dots
nor slashes. -/
structure Enrollable (d : Descriptor) : Prop where
  file : (Path.ofString d.sourcePath).name ≠ ""
  dot : '.' ∉ d.name.toList
  slash : '/' ∉ d.name.toList

theorem collision_of {d : Descriptor} {place : Path} {given : Bool} {c : Conflict}
    (hplace : b.targetOf d.sourcePath (some d.name) = .ok (place, given))
    (hkind : c.kind = .namingCollision) : b.Collision d (.of (b.planAt d place given) c) :=
  ⟨hkind, place, given, hplace, rfl⟩

/-- What can become of a component: it is refused for a naming collision and the registry stays as
it was, or its plan has no conflict and is accepted. -/
theorem enroll_cases (h : b.RenamesToIdentifiers) {dir : String}
    (hdir : b.naming.subdir = .text dir) {d : Descriptor} (hd : Enrollable d) (r : Registry) :
    (∃ refusal, b.enroll r d = (r, .error (.refused refusal)) ∧ b.Collision d refusal) ∨
    (∃ place given, b.targetOf d.sourcePath (some d.name) = .ok (place, given) ∧
      shared? (b.renamesOf d) = none ∧ r.conflict? (b.planAt d place given) = none ∧
      b.enroll r d = (r.accept (b.planAt d place given), .ok (b.planAt d place given))) := by
  obtain ⟨place, given, hplace⟩ := exists_place h (some d.name) hd.file
  have hplan := plan_eq hdir hplace
  cases hshared : shared? (b.renamesOf d) with
  | some c =>
    rw [hshared] at hplan
    refine Or.inl ⟨_, ?_, collision_of hplace (kind_of_sharedFrom? hshared)⟩
    simp only [enroll, hplan]
  | none =>
    rw [hshared] at hplan
    obtain ⟨c, hc, hregister⟩ | ⟨hfree, hregister⟩ :=
      Registry.register_cases r (b.planAt d place given)
    · refine Or.inl ⟨_, ?_, collision_of hplace (Registry.kind_of_conflict? hc)⟩
      simp only [enroll, hplan, hregister]
    · refine Or.inr ⟨place, given, hplace, rfl, hfree, ?_⟩
      simp only [enroll, hplan, hregister]

/-- Two plans at their places have different tests, if they have different names. -/
theorem testPath_ne (h : b.RenamesToIdentifiers) {d e : Descriptor} (hd : Enrollable d)
    (he : Enrollable e) {place place' : Path} {given given' : Bool}
    (hplace : b.targetOf d.sourcePath (some d.name) = .ok (place, given))
    (hplace' : b.targetOf e.sourcePath (some e.name) = .ok (place', given'))
    (hne : (b.planAt d place given).targetName ≠ (b.planAt e place' given').targetName) :
    b.testPath (b.planAt d place given) ≠ b.testPath (b.planAt e place' given') :=
  fun hsame => hne <| testPath_inj (slash_notMem_name (sound_place h hplace))
    (slash_notMem_name (sound_place h hplace')) (chars_targetName h place given hd.dot hd.slash)
    (chars_targetName h place' given' he.dot he.slash) hsame

/-- An accepted plan: made for a component that can be enrolled, and without two new names that are
the same. -/
def Accepted (b : Batch) (p : Plan) : Prop :=
  ∃ d place given, Enrollable d ∧ b.targetOf d.sourcePath (some d.name) = .ok (place, given) ∧
    shared? (b.renamesOf d) = none ∧ p = b.planAt d place given

/-- The run: together with what has been accepted before, the plans accepted of some components are
apart. -/
theorem pairwise_acceptedFrom (h : b.RenamesToIdentifiers) {dir : String}
    (hdir : b.naming.subdir = .text dir) {ds : List Descriptor} (hds : ∀ d ∈ ds, Enrollable d)
    {r : Registry} {before : List Plan} (hknows : r.Knows before)
    (hbefore : ∀ p ∈ before, b.Accepted p) (hapart : before.Pairwise b.Apart)
    (hsources : (before.map (·.descriptor.sourcePath) ++ ds.map (·.sourcePath)).Nodup) :
    (∀ p ∈ before ++ b.acceptedFrom r ds, b.Accepted p) ∧
      (before ++ b.acceptedFrom r ds).Pairwise b.Apart := by
  induction ds generalizing r before with
  | nil => exact ⟨by simpa [acceptedFrom] using hbefore, by simpa [acceptedFrom] using hapart⟩
  | cons d rest ih =>
    have hd := hds d List.mem_cons_self
    have hrest : ∀ e ∈ rest, Enrollable e := fun e he => hds e (List.mem_cons_of_mem d he)
    obtain ⟨refusal, henroll, -⟩ | ⟨place, given, hplace, hshared, hfree, henroll⟩ :=
      enroll_cases h hdir hd r
    · have hnodup : (before.map (·.descriptor.sourcePath) ++ rest.map (·.sourcePath)).Nodup :=
        hsources.sublist (List.Sublist.append_left (List.sublist_cons_self _ _) _)
      simpa only [acceptedFrom, henroll] using ih hrest hknows hbefore hapart hnodup
    · have hnew : ∀ q ∈ before, q.descriptor.sourcePath ≠ d.sourcePath := by
        intro q hq hsame
        have hdisjoint := (List.nodup_append.mp hsources).2.2
        exact hdisjoint _ (List.mem_map_of_mem hq) _ List.mem_cons_self hsame
      have hown : b.Accepted (b.planAt d place given) :=
        ⟨d, place, given, hd, hplace, hshared, rfl⟩
      have hnext : (before ++ [b.planAt d place given]).Pairwise b.Apart := by
        refine List.pairwise_append.mpr ⟨hapart, List.pairwise_singleton _ _, ?_⟩
        intro q hq p hp
        obtain rfl := List.mem_singleton.mp hp
        obtain ⟨hname, hpath⟩ := hknows.apart hfree hnew q hq
        obtain ⟨e, place', given', he, hplace', -, rfl⟩ := hbefore q hq
        exact ⟨hname, testPath_ne h he hd hplace' hplace hname, hpath⟩
      have hsources' : ((before ++ [b.planAt d place given]).map (·.descriptor.sourcePath) ++
          rest.map (·.sourcePath)).Nodup := by
        simpa [planAt] using hsources
      have hall : ∀ p ∈ before ++ [b.planAt d place given], b.Accepted p := by
        intro p hp
        rcases List.mem_append.mp hp with hp | hp
        · exact hbefore p hp
        · exact List.mem_singleton.mp hp ▸ hown
      simpa only [acceptedFrom, henroll, List.append_assoc, List.singleton_append] using
        ih hrest (hknows.accept hfree hnew) hall hnext hsources'

/-- **A registry keeps apart what it accepts, and refuses only what collides.**  Of components with
different sources, the accepted plans have new names that are told apart within the file and within
the batch, tests of their own, and a shared target path only if the later one was given its path.
Every other component is refused for a naming collision, with its plan, and the registry stays as it
was. -/
theorem enrolled_apart (h : b.RenamesToIdentifiers) (hdir : ∃ dir, b.naming.subdir = .text dir)
    {ds : List Descriptor} (hsources : (ds.map (·.sourcePath)).Nodup)
    (hds : ∀ d ∈ ds, Enrollable d) :
    (∀ p ∈ b.accepted ds, InjectiveRenames p) ∧
    (b.accepted ds).Pairwise b.Apart ∧
    ∀ before d after, ds = before ++ d :: after →
      ∀ e, (b.enroll (b.enrolled before) d).2 = .error e →
        (∃ refusal, e = .refused refusal ∧ b.Collision d refusal) ∧
          b.enrolled (before ++ [d]) = b.enrolled before := by
  obtain ⟨dir, hdir⟩ := hdir
  obtain ⟨hall, hapart⟩ := pairwise_acceptedFrom h hdir hds Registry.knows_empty
    (fun _ hp => absurd hp List.not_mem_nil) List.Pairwise.nil hsources
  refine ⟨fun p hp => ?_, hapart, ?_⟩
  · obtain ⟨d, place, given, -, -, hshared, rfl⟩ := hall p hp
    exact fun old old' new => injective_of_shared? hshared
  · rintro before d after rfl e he
    have hd : Enrollable d := hds d (by simp)
    have hstep : b.enrolled (before ++ [d]) = (b.enroll (b.enrolled before) d).1 := by
      rw [enrolled, List.foldl_append]
      rfl
    obtain ⟨refusal, henroll, hcollision⟩ | ⟨place, given, -, -, -, henroll⟩ :=
      enroll_cases h hdir hd (b.enrolled before)
    · rw [henroll] at he hstep
      exact ⟨⟨refusal, (Except.error.inj he).symm, hcollision⟩, hstep⟩
    · rw [henroll] at he
      cases he

/-! ### Components that cross -/

/-- A batch in which what is called `Box` becomes a `Card`, and one file is sent to the place of
another. -/
def crossing : Batch where
  naming := {
    renames := Table.empty.put "Box" "Card"
    pathOverrides := Table.empty.put "old/Modal.jsx" "Modal.jsx" }

/-- A component that takes the name `Card`. -/
def card : Descriptor := { name := "Card", sourcePath := "Card.jsx" }

/-- A component that would take the same name. -/
def box : Descriptor := { name := "Box", sourcePath := "Box.jsx" }

/-- A component, and one that is sent to its place. -/
def dialogs : List Descriptor :=
  [{ name := "Modal", sourcePath := "Modal.jsx" },
    { name := "Dialog", sourcePath := "old/Modal.jsx" }]

/-- The box is refused, and the two dialogs are accepted at one place. -/
theorem crossing_apart :
    (crossing.accepted (card :: box :: dialogs)).map (·.targetName) = ["Card", "Modal", "Dialog"] ∧
    (crossing.accepted (card :: box :: dialogs)).Pairwise crossing.Apart ∧
    (crossing.accepted dialogs).map (·.targetPath) =
      [crossing.root.child "Modal.jsx", crossing.root.child "Modal.jsx"] ∧
    ∃ refusal, (crossing.enroll (crossing.enrolled [card]) box).2 = .error (.refused refusal) ∧
      crossing.Collision box refusal ∧ crossing.enrolled [card, box] = crossing.enrolled [card] := by
  have hnames : crossing.RenamesToIdentifiers := by
    intro old new h
    rw [crossing, Table.get?_put] at h
    split at h
    · obtain rfl := Option.some.inj h
      decide
    · cases h
  have hds : ∀ d ∈ card :: box :: dialogs, Enrollable d := by
    intro d hd
    simp only [dialogs, List.mem_cons, List.not_mem_nil, or_false] at hd
    rcases hd with rfl | rfl | rfl | rfl <;> constructor <;> decide +kernel
  obtain ⟨-, hapart, hrefused⟩ := enrolled_apart hnames ⟨"src", rfl⟩ (by decide) hds
  refine ⟨by decide +kernel, hapart, by decide +kernel, ?_⟩
  have hnone : (crossing.enroll (crossing.enrolled [card]) box).2.toOption = none := by
    decide +kernel
  cases hbox : (crossing.enroll (crossing.enrolled [card]) box).2 with
  | ok p =>
    rw [hbox] at hnone
    cases hnone
  | error e =>
    obtain ⟨⟨refusal, rfl, hcollision⟩, hsame⟩ := hrefused [card] box dialogs rfl e hbox
    exact ⟨refusal, rfl, hcollision, hsame⟩

end Batch
end Transplant
