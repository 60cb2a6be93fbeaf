import Transplant.Adapt.Basic
import Transplant.Component.Analysis
import Transplant.Proofs.Text.Utf8
import Mathlib.Logic.Relation

/-!
# An adapted source is read again

Every pass replaces a source by the result of some edits, which is read again, so a source is at all
times what its own bytes are read as.  Its path and its language never change.  Hence the text of an
adapted source can be read under the path of the original, and what is found out about the component
in that text is what the tree of the adapted source says.

This is all that the passes promise.  It does not follow that the adapted source is read as a
component with the same props.  A component may be assigned two objects of defaults, of which the
first counts here.  When all entries of that one are moved into the parameter it is deleted, and
then the second one counts.

* `Source.Edited`: one source is another one after some edits
* `Batch.adapt_edited`: the passes make edits, and do nothing else to a source
* `Batch.parse_adapted`: an adapted source can be read
* `Batch.second_object_exposed`: a prop that gets a default by being adapted
-/

namespace Transplant

section Except

variable {ε ε' α β : Type}

theorem ok_of_mapError {x : Except ε α} {f : ε → ε'} {a : α} (h : x.mapError f = .ok a) :
    x = .ok a := by
  cases x with
  | error e => cases h
  | ok a' => exact congrArg Except.ok (Except.ok.inj h)

theorem exists_of_bind {x : Except ε α} {f : α → Except ε β} {b : β} (h : x >>= f = .ok b) :
    ∃ a, x = .ok a ∧ f a = .ok b := by
  cases x with
  | error e => cases h
  | ok a => exact ⟨a, rfl, h⟩

theorem ok_of_toOption {x : Except ε α} {a : α} (h : x.toOption = some a) : x = .ok a := by
  cases x with
  | error e => cases h
  | ok a' => exact congrArg Except.ok (Option.some.inj h)

end Except

/-! ## Sources -/

namespace Source

/-- The source is what its own bytes are read as. -/
def AsRead (s : Source) : Prop := ofBytes s.bytes s.path s.language = .ok s

/-- The source `t` is the source `s` after some edits. -/
def Edited (s t : Source) : Prop := ∃ edits, s.apply edits = .ok t

theorem ofBytes_fields {bytes : Bytes} {path : String} {language : Language} {s : Source}
    (h : ofBytes bytes path language = .ok s) :
    s.bytes = bytes ∧ s.path = path ∧ s.language = language := by
  unfold ofBytes at h
  split at h
  · cases h
    exact ⟨rfl, rfl, rfl⟩
  · cases h

theorem asRead_of_ofBytes {bytes : Bytes} {path : String} {language : Language} {s : Source}
    (h : ofBytes bytes path language = .ok s) : s.AsRead := by
  obtain ⟨hbytes, hpath, hlanguage⟩ := ofBytes_fields h
  rw [AsRead, hbytes, hpath, hlanguage, h]

/-- Edits either change nothing or give new bytes, which are read. -/
theorem apply_cases {s t : Source} {edits : List Edit} (h : s.apply edits = .ok t) :
    t = s ∨ ofBytes (Edit.splice s.bytes edits) s.path s.language = .ok t := by
  unfold apply at h
  split at h
  · exact .inl (Except.ok.inj h).symm
  · split at h
    · cases h
    · exact .inr (ok_of_mapError h)

/-- Edits in order that do not overlap are made where they stand. -/
theorem apply_of_pairwise {s t : Source} {e : Edit} {rest : List Edit}
    (hordered : (e :: rest).Pairwise fun a b => Edit.notAfter a b = true)
    (hapart : Edit.overlapFrom? (-1) (e :: rest) = none)
    (hread : ofBytes (Edit.spliceFrom s.bytes 0 (e :: rest)) s.path s.language = .ok t) :
    s.apply (e :: rest) = .ok t := by
  have hsort : Edit.inOrder (e :: rest) = e :: rest := List.mergeSort_of_pairwise hordered
  simp only [apply, List.isEmpty_cons, Bool.false_eq_true, if_false, Edit.overlap?, Edit.splice,
    hsort, hapart, hread, Except.mapError]

/-- What holds of a source all the time while it is edited, after it has been read from a path. -/
structure Kept (path : String) (language : Language) (s : Source) : Prop where
  asRead : s.AsRead
  path_eq : s.path = path
  language_eq : s.language = language

theorem kept_of_ofBytes {bytes : Bytes} {path : String} {language : Language} {s : Source}
    (h : ofBytes bytes path language = .ok s) : Kept path language s :=
  ⟨asRead_of_ofBytes h, (ofBytes_fields h).2.1, (ofBytes_fields h).2.2⟩

/-- The step: edits keep it. -/
theorem Kept.edited {path : String} {language : Language} {s t : Source} (hs : Kept path language s)
    (h : Edited s t) : Kept path language t := by
  obtain ⟨edits, happly⟩ := h
  obtain rfl | hread := apply_cases happly
  · exact hs
  · rw [hs.path_eq, hs.language_eq] at hread
    exact kept_of_ofBytes hread

/-- The run: any number of edits keeps it. -/
theorem Kept.reflTransGen {path : String} {language : Language} {s t : Source}
    (hs : Kept path language s) (h : Relation.ReflTransGen Edited s t) : Kept path language t := by
  induction h with
  | refl => exact hs
  | tail _ hstep ih => exact ih.edited hstep

/-- A source that has been read is read again from its text. -/
theorem Kept.parse_text {path text : String} {s : Source} (hs : Kept path (Language.ofPath path) s)
    (htext : s.text = .ok text) : parse text path = .ok s := by
  have hread : ofBytes s.bytes s.path s.language = .ok s := hs.asRead
  rw [hs.path_eq, hs.language_eq] at hread
  rw [parse, Utf8.encode_of_decode htext, hread]

end Source

/-! ## Passes -/

namespace Draft

open Source (Edited)

theorem edit_edited {d d' : Draft} {edits : List Edit} (h : d.edit edits = .ok d') :
    Edited d.source d'.source := by
  unfold edit at h
  split at h
  next source happly =>
    cases h
    exact ⟨edits, happly⟩
  next => cases h

variable {b : Batch} {d d' : Draft}

theorem normalizeDefaults_edited (h : normalizeDefaults b d = .ok d') :
    Edited d.source d'.source := by
  obtain ⟨site, -, hedit⟩ := exists_of_bind h
  have hstep := edit_edited hedit
  exact hstep

theorem renameTestAttributes_edited (h : renameTestAttributes b d = .ok d') :
    Edited d.source d'.source := by
  obtain ⟨edits, -, hedit⟩ := exists_of_bind h
  exact edit_edited hedit

theorem resolveSpecifiers_edited (h : resolveSpecifiers b d = .ok d') :
    Edited d.source d'.source := by
  obtain ⟨⟨plan, edits⟩, -, hedit⟩ := exists_of_bind h
  exact edit_edited (d := ⟨d.source, plan⟩) hedit

theorem renameIdentifiers_edited (h : renameIdentifiers b d = .ok d') :
    Edited d.source d'.source := by
  obtain ⟨edits, -, hedit⟩ := exists_of_bind h
  exact edit_edited hedit

theorem addHeader_edited (h : addHeader b d = .ok d') : Edited d.source d'.source :=
  edit_edited h

end Draft

/-! ## The second analysis -/

/-- The names of props in order, each with whether it has a default. -/
def Props.schema (props : List PropSpec) : List (String × Bool) :=
  props.map fun p => (p.name, p.hasDefault)

/-- The descriptor of a component that has been found. -/
theorem Descriptor.exists_ofTree {root : Node} {path : String} {site : Site} (language : Language)
    (hsite : Site.locate root path = .ok site) :
    ∃ d, Descriptor.ofTree root language path = .ok d ∧ d.sourcePath = path ∧
      d.props = (Props.extract root site).props := by
  rw [Descriptor.ofTree, hsite]
  exact ⟨_, rfl, rfl, rfl⟩

/-- What is known of a component comes from the place where it is. -/
theorem Descriptor.exists_site {root : Node} {language : Language} {path : String} {d : Descriptor}
    (h : Descriptor.ofTree root language path = .ok d) :
    ∃ site, Site.locate root path = .ok site ∧ d.sourcePath = path ∧ d.name = site.name ∧
      d.childRefs = Imports.childRefs root site.callable := by
  unfold Descriptor.ofTree at h
  cases hsite : Site.locate root path with
  | error e => rw [hsite] at h; cases h
  | ok site =>
    rw [hsite] at h
    obtain rfl := Except.ok.inj h
    exact ⟨site, rfl, rfl, rfl, rfl⟩

namespace Batch

open Source (Edited)

variable {b : Batch}

/-- **The passes edit a source, one after the other, and do nothing else to it.** -/
theorem adapt_edited {s : Source} {d : Descriptor} {out : Draft}
    (h : b.adapt s d = .ok out) : Relation.ReflTransGen Edited s out.source := by
  obtain ⟨plan, -, h⟩ := exists_of_bind h
  obtain ⟨d₁, hdefaults, h⟩ := exists_of_bind h
  obtain ⟨d₂, hattributes, h⟩ := exists_of_bind h
  obtain ⟨d₃, hspecifiers, h⟩ := exists_of_bind h
  obtain ⟨d₄, hidentifiers, hheader⟩ := exists_of_bind h
  exact .head (Draft.normalizeDefaults_edited hdefaults) <|
    .head (Draft.renameTestAttributes_edited hattributes) <|
    .head (Draft.resolveSpecifiers_edited hspecifiers) <|
    .head (Draft.renameIdentifiers_edited hidentifiers) <|
    .single (Draft.addHeader_edited hheader)

/-- **An adapted source can be read.**  Its text is read, under the path of the original, as the
adapted source itself. -/
theorem parse_adapted {text path adapted : String} {s : Source} {d : Descriptor} {out : Draft}
    (hs : Source.parse text path = .ok s) (h : b.adapt s d = .ok out)
    (htext : out.source.text = .ok adapted) : Source.parse adapted path = .ok out.source :=
  ((Source.kept_of_ofBytes hs).reflTransGen (adapt_edited h)).parse_text htext

/-- What a second analysis finds in the text of an adapted source is what its tree says. -/
theorem ofText_adapted {text path adapted : String} {s : Source} {d : Descriptor} {out : Draft}
    (hs : Source.parse text path = .ok s) (h : b.adapt s d = .ok out)
    (htext : out.source.text = .ok adapted) :
    Descriptor.ofText adapted path =
      Descriptor.ofTree out.source.root out.source.language path := by
  have hparse := parse_adapted hs h htext
  unfold Descriptor.ofText
  rw [hparse]

/-! ## Batches without new names -/

theorem renamesOf_of_empty (h : b.naming.renames = Table.empty) (d : Descriptor) :
    b.renamesOf d = Table.empty := by
  simp [renamesOf, h, Table.ofPairs]

/-- Without new names there is a plan as soon as there is a place for the file. -/
theorem plan_of_empty (hrenames : b.naming.renames = Table.empty) {d : Descriptor}
    {root place : Path} {given : Bool} (hroot : b.root? = .ok root)
    (hplace : b.targetOf d.sourcePath (some d.name) = .ok (place, given)) :
    b.plan d = .ok {
      descriptor := d, targetPath := root ++ place, renames := Table.empty
      rules := b.redirects.rules, pathOverridden := given } := by
  simp only [plan, hplace, hroot, renamesOf_of_empty hrenames, Except.mapError, bind, Except.bind]
  rfl

/-- A batch without new names and without a header. -/
def plain : Batch := { naming := { header := false } }

theorem targetOf_plain (component : Option String) :
    plain.targetOf "B.jsx" component = .ok (Path.ofString "B.jsx", false) := by
  have hstem (c : Bool) (name : String) :
      (if c then (plain.naming.renames.get? name).getD name else name) = name := by
    rw [show plain.naming.renames = Table.empty from rfl, Table.get?_empty, Option.getD_none,
      ite_self]
  simp only [targetOf, show plain.naming.pathOverrides = Table.empty from rfl, Table.get?_empty,
    hstem]
  rfl

/-- No test attribute has another name than the usual one, and no module is named. -/
def Bare (root : Node) : Prop :=
  root.walk.filterMap (TestAttributes.edit? "data-testid") = [] ∧
    (Specifiers.inTree root).isEmpty = true

instance (root : Node) : Decidable (Bare root) := inferInstanceAs (Decidable (_ ∧ _))

/-- Only the first pass changes a source that has no test attributes and names no module. -/
theorem adapt_plain {s t : Source} {d : Descriptor} {site : Site} {edits : List Edit}
    (hpath : d.sourcePath = "B.jsx") (hsite : Site.locate s.root "B.jsx" = .ok site)
    (hdefaults : Defaults.normalize .explicit s site = ⟨edits, []⟩) (happly : s.apply edits = .ok t)
    (hbare : Bare t.root) : ∃ p, plain.adapt s d = .ok ⟨t, p⟩ := by
  have hplan := plan_of_empty (b := plain) (d := d) rfl rfl (hpath ▸ targetOf_plain _)
  generalize hp : Plan.mk d _ _ _ _ _ _ _ = p at hplan
  have hdescriptor : p.descriptor.sourcePath = "B.jsx" := by rw [← hp, ← hpath]
  have hrenames : p.renames = Table.empty := by rw [← hp]
  have hfirst : Draft.normalizeDefaults plain ⟨s, p⟩ = .ok ⟨t, p⟩ := by
    simp only [Draft.normalizeDefaults, hdescriptor, hsite, hdefaults, Draft.edit, happly,
      show plain.naming.defaultStyle = .explicit from rfl, Except.mapError, bind, Except.bind,
      List.foldl_nil]
  have hsecond : Draft.renameTestAttributes plain ⟨t, p⟩ = .ok ⟨t, p⟩ := by
    have hedits : TestAttributes.edits plain.naming t.root = .ok [] := by
      rw [TestAttributes.edits, show plain.naming.enforced? = some (.text "data-testid") from rfl]
      simp only [NameSetting.shown, hbare.1]
    simp only [Draft.renameTestAttributes, hedits]
    rfl
  have hthird : Draft.resolveSpecifiers plain ⟨t, p⟩ = .ok ⟨t, p⟩ := by
    simp only [Draft.resolveSpecifiers, Specifiers.edits, List.isEmpty_iff.mp hbare.2]
    rfl
  have hfourth : Draft.renameIdentifiers plain ⟨t, p⟩ = .ok ⟨t, p⟩ := by
    simp only [Draft.renameIdentifiers, Identifiers.edits, hrenames]
    rfl
  have hfifth : Draft.addHeader plain ⟨t, p⟩ = .ok ⟨t, p⟩ := rfl
  refine ⟨p, ?_⟩
  simp only [adapt, hplan, adaptWith, hfirst, hsecond, hthird, hfourth, hfifth, Except.mapError,
    bind, Except.bind]

/-- What comes of a text whose defaults are moved, if there is nothing else to be done. -/
theorem adapt_plain_text {text adapted : String} {s t : Source} {d : Descriptor} {site : Site}
    {e : Edit} {rest : List Edit} (hs : Source.parse text "B.jsx" = .ok s)
    (hpath : d.sourcePath = "B.jsx") (hsite : Site.locate s.root "B.jsx" = .ok site)
    (hdefaults : Defaults.normalize .explicit s site = ⟨e :: rest, []⟩)
    (ht : Source.parse adapted "B.jsx" = .ok t) (hbare : Bare t.root)
    (hordered : (e :: rest).Pairwise fun a b => Edit.notAfter a b = true)
    (hapart : Edit.overlapFrom? (-1) (e :: rest) = none)
    (hsplice : Edit.spliceFrom (Utf8.encode text) 0 (e :: rest) = Utf8.encode adapted)
    (hdecode : Utf8.decode (Utf8.encode adapted) = .ok adapted) :
    ∃ p, plain.adapt s d = .ok ⟨t, p⟩ ∧ t.text = .ok adapted := by
  have happly : s.apply (e :: rest) = .ok t := by
    obtain ⟨hbytes, hpath, hlanguage⟩ := Source.ofBytes_fields hs
    refine Source.apply_of_pairwise hordered hapart ?_
    rw [hbytes, hpath, hlanguage, hsplice]
    exact ht
  obtain ⟨p, hadapt⟩ := adapt_plain hpath hsite hdefaults happly hbare
  refine ⟨p, hadapt, ?_⟩
  rw [Source.text, (Source.ofBytes_fields ht).1, hdecode]

/-! ### Two objects of defaults -/

/-- A component to which two objects of defaults are assigned. -/
def twoObjects : String :=
  "export const B = (\x7b a, b \x7d) => <p/>;\nB.defaultProps = \x7b a: 1 \x7d;\n" ++
    "B.defaultProps = \x7b b: 2 \x7d;\n"

/-- The same component with the entry of the first object moved. -/
def oneObject : String :=
  "export const B = (\x7b a = 1, b \x7d) => <p/>;\nB.defaultProps = \x7b b: 2 \x7d;\n"

/-- A text that is read, with the component in it. -/
def read? (text : String) : Option (Source × Site) := do
  let source ← (Source.parse text "B.jsx").toOption
  let site ← (Site.locate source.root "B.jsx").toOption
  return (source, site)

theorem exists_of_read? (text : String) (P : Source → Site → Prop) [∀ s site, Decidable (P s site)]
    (h : (read? text).any (fun r => decide (P r.1 r.2)) = true) :
    ∃ s site, Source.parse text "B.jsx" = .ok s ∧ Site.locate s.root "B.jsx" = .ok site ∧
      P s site := by
  obtain ⟨⟨s, site⟩, hread, hP⟩ := Option.any_eq_true _ _ |>.mp h
  simp only [read?, bind, Option.bind_eq_some_iff] at hread
  obtain ⟨s', hs, site', hsite, heq⟩ := hread
  obtain ⟨rfl, rfl⟩ := Prod.mk.inj (Option.some.inj heq)
  exact ⟨s', site', ok_of_toOption hs, ok_of_toOption hsite, of_decide_eq_true hP⟩

/-- What is read of the component, and what is to be moved in it. -/
theorem read_twoObjects :
    ∃ s site, Source.parse twoObjects "B.jsx" = .ok s ∧ Site.locate s.root "B.jsx" = .ok site ∧
      Props.schema (Props.extract s.root site).props = [("a", true), ("b", false)] ∧
      Defaults.normalize .explicit s site = ⟨[⟨20, 21, "a = 1"⟩, ⟨37, 64, ""⟩], []⟩ :=
  exists_of_read? twoObjects
    (fun s site => Props.schema (Props.extract s.root site).props = [("a", true), ("b", false)] ∧
      Defaults.normalize .explicit s site = ⟨[⟨20, 21, "a = 1"⟩, ⟨37, 64, ""⟩], []⟩)
    (by decide +kernel)

/-- What is read of it afterwards, and what is to be moved then. -/
theorem read_oneObject :
    ∃ t site, Source.parse oneObject "B.jsx" = .ok t ∧ Site.locate t.root "B.jsx" = .ok site ∧
      Props.schema (Props.extract t.root site).props = [("a", true), ("b", true)] ∧
      Bare t.root ∧
      Defaults.normalize .explicit t site = ⟨[⟨27, 28, "b = 2"⟩, ⟨41, 68, ""⟩], []⟩ :=
  exists_of_read? oneObject
    (fun t site => Props.schema (Props.extract t.root site).props = [("a", true), ("b", true)] ∧
      Bare t.root ∧
      Defaults.normalize .explicit t site = ⟨[⟨27, 28, "b = 2"⟩, ⟨41, 68, ""⟩], []⟩)
    (by decide +kernel)

/-- The first object is moved. -/
theorem adapt_twoObjects {s t : Source} {d : Descriptor} {site : Site}
    (hs : Source.parse twoObjects "B.jsx" = .ok s) (hpath : d.sourcePath = "B.jsx")
    (hsite : Site.locate s.root "B.jsx" = .ok site)
    (hdefaults : Defaults.normalize .explicit s site =
      ⟨[⟨20, 21, "a = 1"⟩, ⟨37, 64, ""⟩], []⟩)
    (ht : Source.parse oneObject "B.jsx" = .ok t) (hbare : Bare t.root) :
    ∃ p, plain.adapt s d = .ok ⟨t, p⟩ ∧ t.text = .ok oneObject :=
  adapt_plain_text hs hpath hsite hdefaults ht hbare (by decide) (by decide) (by decide +kernel)
    (by decide +kernel)

/-- The default of `b` stands in the second object, which does not count before the component is
adapted and counts afterwards. -/
theorem second_object_exposed :
    ∃ s d out d', Source.parse twoObjects "B.jsx" = .ok s ∧
      Descriptor.ofTree s.root s.language "B.jsx" = .ok d ∧
      plain.adapt s d = .ok out ∧ out.source.text = .ok oneObject ∧
      Descriptor.ofText oneObject "B.jsx" = .ok d' ∧
      Props.schema d.props = [("a", true), ("b", false)] ∧
      Props.schema d'.props = [("a", true), ("b", true)] := by
  obtain ⟨s, site, hs, hsite, hschema, hdefaults⟩ := read_twoObjects
  obtain ⟨t, site', ht, hsite', hschema', hbare, -⟩ := read_oneObject
  obtain ⟨d, hd, hpath, hprops⟩ := Descriptor.exists_ofTree s.language hsite
  obtain ⟨d', hd', -, hprops'⟩ := Descriptor.exists_ofTree t.language hsite'
  obtain ⟨p, hadapt, htext⟩ := adapt_twoObjects hs hpath hsite hdefaults ht hbare
  refine ⟨s, d, ⟨t, p⟩, d', hs, hd, hadapt, htext, ?_, hprops ▸ hschema, hprops' ▸ hschema'⟩
  rw [ofText_adapted hs hadapt htext]
  exact hd'

end Batch
end Transplant
