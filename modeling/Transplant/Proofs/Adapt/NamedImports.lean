import Transplant.Proofs.Comments.Tree
import Transplant.Proofs.Migration.Product

/-!
# Names that are imported

A file asks another one for a name, `import { X } from …` or `import { X as L } from …`.  If the
other file belongs to the batch and `X` is its component, and `X` is given a new name, then the
other file comes to export the new name, and whoever asks for `X` has to ask for that.

## Local names and exported names

The pass that replaces names does not look at modules at all.  It replaces a name wherever it
stands, if it is the name of the component itself, or if it is bound by an import and the root of a
tag in the markup (`Imports.Tagged`).  Such names are *local* ones.  That the name in braces is
exported by a file of the batch plays no part, and so the two can disagree in both directions.  A
name is missed if its local name is another one or stands in no tag; and one that comes from a
package, or that happens to be the component's own, is replaced.

`Batch.named_imports_follow_iff` says that nothing else can go wrong.

* `NamedImport`: a name in braces that a tree asks for
* `NamedImport.Follows`: that it changes with the file that exports it, and only then
* `Batch.named_imports_follow_iff`: when it does
* `Batch.aliased_import_left`: an import under another name, which is left as it was
-/

namespace Transplant

/-! ## Tags -/

namespace Imports

/-- A name that is the root of a tag in the markup of a component, and that an import of the module
binds, those of the framework aside. -/
def Tagged (root callable : Node) (name : String) : Prop :=
  ∃ tag ∈ callable.walk, tag.kind.opensElement = true ∧ elementRoot? tag = some name ∧
    ∃ module, (bindings root).lookup name = some module ∧ module ∉ frameworkModules

theorem mem_childRefs_iff {root callable : Node} {name : String} :
    name ∈ childRefs root callable ↔ Tagged root callable name := by
  have hmodule : ((bindings root).lookup name).any (fun module =>
      !frameworkModules.contains module) = true ↔
      ∃ module, (bindings root).lookup name = some module ∧ module ∉ frameworkModules := by
    simp [Option.any_eq_true]
  rw [childRefs, mem_eachOnce, List.mem_filterMap, Tagged, ← hmodule]
  constructor
  · rintro ⟨tag, htag, hname⟩
    obtain ⟨hmem, hopens⟩ := List.mem_filter.mp htag
    obtain ⟨hroot, hbound⟩ := Option.filter_eq_some_iff.mp hname
    exact ⟨tag, hmem, hopens, hroot, hbound⟩
  · rintro ⟨tag, hmem, hopens, hroot, hbound⟩
    exact ⟨tag, List.mem_filter.mpr ⟨hmem, hopens⟩,
      Option.filter_eq_some_iff.mpr ⟨hroot, hbound⟩⟩

end Imports

/-! ## The pass -/

namespace Identifiers

/-- The edits of the pass are those of the single nodes. -/
theorem edits_eq {p : Plan} {root : Node} {l : List Edit} (h : edits p root = .ok l) :
    l = root.walk.filterMap (edit? p.renames) := by
  unfold edits at h
  split at h
  · rename_i hempty
    have hnone : ∀ n : Node, edit? p.renames n = none := by
      intro n
      have hget : p.renames.get? n.text = none := by
        rw [Table.get?, List.isEmpty_iff.mp hempty, List.lookup_nil]
      unfold edit?
      rw [hget, Option.map_none, Option.map_none, ite_self, ite_self]
    rw [funext hnone, List.filterMap_none]
    exact (Except.ok.inj h).symm
  · split at h
    · cases h
    · exact (Except.ok.inj h).symm

end Identifiers

/-- Edits are made on the bytes of a draft. -/
theorem Draft.bytes_edit {d d' : Draft} {edits : List Edit} (h : d.edit edits = .ok d') :
    d'.source.bytes = Edit.splice d.source.bytes edits := by
  unfold edit at h
  split at h
  · rename_i source happly
    obtain rfl := Except.ok.inj h
    unfold Source.apply at happly
    split at happly
    · rename_i hempty
      obtain rfl := Except.ok.inj happly
      simp [List.isEmpty_iff.mp hempty, Edit.splice, Edit.inOrder, Edit.spliceFrom, Edit.place]
    · split at happly
      · cases happly
      · exact (Source.ofBytes_fields (ok_of_mapError happly)).1
  · cases h

/-! ## Imports -/

/-- A name in braces of an import statement in a tree: an identifier, or a text in quotes. -/
structure NamedImport (root : Node) where
  statement : Node
  specifier : Node
  name : Node
  mem_root : statement ∈ root.walk
  isImport : statement.kind = .importStatement
  mem_statement : specifier ∈ statement.walk
  isSpecifier : specifier.kind = .importSpecifier
  isName : specifier.child? .name = some name
  plain : name.kind = .identifier ∨ name.kind = .string

namespace NamedImport

variable {root : Node} (i : NamedImport root)

/-- The exported name that is asked for. -/
def requested : String := i.name.keyName

/-- The name becomes `new` when names are replaced. -/
def ChangesTo (renames : Table String) (new : String) : Prop :=
  Identifiers.edit? renames i.name = some ⟨i.name.start, i.name.stop, new⟩

/-- A name changes with the file that exports it, and only then: it becomes `new` if and only if
`module` names a file of the batch, from the file of `d`, that holds a component of this name, and
the component is given the name `new`. -/
def Follows (b : Batch) (d : Descriptor) (holds : String → Option String) (module : String) :
    Prop :=
  ∀ new, i.ChangesTo (b.renamesOf d) new ↔
    (∃ file, b.sibling? d.sourcePath module = some file ∧ holds file.path = some i.requested) ∧
      b.override? i.requested = some new

theorem name_mem_walk : i.name ∈ root.walk := by
  have hchild : i.name ∈ i.specifier.children := List.mem_of_find?_eq_some i.isName
  exact Node.walk_trans i.mem_root <| Node.walk_trans i.mem_statement <|
    Node.mem_walk_of_below (Node.mem_walkAll_child hchild)

theorem requested_of_identifier (h : i.name.kind = .identifier) : i.requested = i.name.text := by
  simp [requested, Node.keyName, Node.stringValue?, Node.isPlainTemplate, h]

/-- What the pass does with the name, whatever module it comes from. -/
theorem changesTo_iff {b : Batch} {d : Descriptor} {new : String} :
    i.ChangesTo (b.renamesOf d) new ↔
      (i.name.kind = .identifier ∧ (i.requested = d.name ∨ i.requested ∈ d.childRefs)) ∧
        b.override? i.requested = some new := by
  unfold ChangesTo Identifiers.edit?
  rcases i.plain with hkind | hkind
  · rw [i.requested_of_identifier hkind, if_pos (beq_iff_eq.mpr hkind), and_iff_right hkind,
      ← Batch.get?_renamesOf_iff]
    cases (b.renamesOf d).get? i.name.text <;> simp
  · rw [Identifiers.isShorthand, hkind]
    simp

end NamedImport

namespace Batch

variable {b : Batch}

/-- **When imported names follow the files of a batch.**  Names are replaced in the draft `mid`, in
which the specifiers of modules have been resolved, and the edits of the names that change are among
those that make the adapted source.  Take a name in braces in this draft, and the `module` that its
statement named in the source, whichever it is.  The name follows the batch if and only if it is
given no new name, or else the two conditions agree: that it stands there as an identifier and is
the name of the component or in a tag of it, and that `module` names a file of the batch with a
component of this name. -/
theorem named_imports_follow_iff {s : Source} {source : String} {d : Descriptor} {out : Draft}
    (hd : Descriptor.ofTree s.root s.language source = .ok d) (hadapt : b.adapt s d = .ok out)
    (holds : String → Option String) :
    ∃ site mid named edits, Site.locate s.root source = .ok site ∧
      b.beforeNames s d = .ok mid ∧
      Identifiers.edits mid.plan mid.source.root = .ok edits ∧
      named.source.bytes = Edit.splice mid.source.bytes edits ∧
      Draft.addHeader b named = .ok out ∧
      ∀ i : NamedImport mid.source.root,
        (∀ new, i.ChangesTo (b.renamesOf d) new → ⟨i.name.start, i.name.stop, new⟩ ∈ edits) ∧
        ∀ module, i.Follows b d holds module ↔
          ((b.override? i.requested).isSome →
            ((i.name.kind = .identifier ∧
                (i.requested = site.name ∨ Imports.Tagged s.root site.callable i.requested)) ↔
              ∃ file, b.sibling? source module = some file ∧
                holds file.path = some i.requested)) := by
  obtain ⟨site, hsite, hsource, hname, hrefs⟩ := Descriptor.exists_site hd
  obtain ⟨mid, named, hmid, hnamed, hout⟩ := adapt_stages hadapt
  obtain ⟨edits, hedits, hedit⟩ := exists_of_bind hnamed
  have hrenames : mid.plan.renames = b.renamesOf d := by
    obtain ⟨plan, hplan, hlasting⟩ := beforeNames_lasting hmid
    refine hlasting (fun q => q.renames = b.renamesOf d)
      ⟨fun _ _ hq => hq, fun _ _ _ hq => hq⟩ ?_
    obtain ⟨place, given, -, rfl⟩ := plan_eq_planAt hplan
    rfl
  have hedits := ok_of_mapError hedits
  refine ⟨site, mid, named, edits, hsite, hmid, hedits, Draft.bytes_edit hedit, hout,
    fun i => ⟨fun new hnew => ?_, fun module => ?_⟩⟩
  · rw [Identifiers.edits_eq hedits, hrenames]
    exact List.mem_filterMap.mpr ⟨i.name, i.name_mem_walk, hnew⟩
  · unfold NamedImport.Follows
    simp only [NamedImport.changesTo_iff, hname, hrefs, Imports.mem_childRefs_iff, hsource]
    cases b.override? i.requested with
    | none => simp
    | some new => simp

/-! ### A component that is used under its own name, and under another one -/

/-- A batch in which what is called `Tip` gets a new name. -/
def tips : Batch where
  naming := { header := false, renames := Table.ofPairs [("Tip", "Hint")] }
  files := ["M.jsx", "Tip.jsx"]

/-- The component that the file `Tip.jsx` holds. -/
def tipOf (path : String) : Option String := if path = "Tip.jsx" then some "Tip" else none

/-- A component that imports another one by some name in braces, and uses it in a tag. -/
def importer (braces specifier tag : String) : String :=
  "import \x7b " ++ braces ++ " \x7d from '" ++ specifier ++ "';\n" ++
    "export const M = () => <" ++ tag ++ "/>;\n"

/-- A text that is read, with what is known of the component in it and its draft before names are
replaced. -/
def draft? (b : Batch) (text : String) : Option (Source × Descriptor × Draft) := do
  let s ← (Source.parse text "M.jsx").toOption
  let d ← (Descriptor.ofTree s.root s.language "M.jsx").toOption
  let mid ← (b.beforeNames s d).toOption
  return (s, d, mid)

theorem exists_of_draft? {text : String} {P : Source × Descriptor × Draft → Bool}
    (h : (b.draft? text).any P = true) :
    ∃ s d mid, Source.parse text "M.jsx" = .ok s ∧
      Descriptor.ofTree s.root s.language "M.jsx" = .ok d ∧ b.beforeNames s d = .ok mid ∧
      P (s, d, mid) = true := by
  obtain ⟨⟨s, d, mid⟩, hread, hP⟩ := (Option.any_eq_true _ _).mp h
  simp only [draft?, bind, Option.bind_eq_some_iff] at hread
  obtain ⟨s', hs, d', hd, mid', hmid, heq⟩ := hread
  obtain ⟨rfl, rfl, rfl⟩ := by simpa using heq
  exact ⟨s', d', mid', ok_of_toOption hs, ok_of_toOption hd, ok_of_toOption hmid, hP⟩

/-- What comes of the edits of names is what comes of all passes, as there is no header. -/
theorem adapt_tips {s t : Source} {d : Descriptor} {mid : Draft} {edits : List Edit}
    (hmid : tips.beforeNames s d = .ok mid)
    (hedits : Identifiers.edits mid.plan mid.source.root = .ok edits)
    (happly : mid.source.apply edits = .ok t) : tips.adapt s d = .ok ⟨t, mid.plan⟩ := by
  have hnamed : Draft.renameIdentifiers tips mid = .ok ⟨t, mid.plan⟩ := by
    simp only [Draft.renameIdentifiers, hedits, Draft.edit, happly, Except.mapError, bind,
      Except.bind]
  have hheader : Draft.addHeader tips ⟨t, mid.plan⟩ = .ok ⟨t, mid.plan⟩ := rfl
  simp only [adapt_eq, hmid, hnamed, hheader, bind, Except.bind]

/-- The two edits that give the new name to an import and to the tag that uses it. -/
def tipEdits : List Edit := [⟨9, 12, "Hint"⟩, ⟨54, 57, "Hint"⟩]

/-- The import in a tree that asks for `Tip` by an identifier. -/
def asksForTip (root : Node) : Bool :=
  root.walk.any fun statement => statement.kind == .importStatement &&
    statement.walk.any fun specifier => specifier.kind == .importSpecifier &&
      (specifier.child? .name).any fun name => name.kind == .identifier && name.text == "Tip"

theorem exists_import_of_asksForTip {root : Node} (h : asksForTip root = true) :
    ∃ i : NamedImport root, i.name.kind = .identifier ∧ i.requested = "Tip" := by
  obtain ⟨statement, hstatement, h⟩ := List.any_eq_true.mp h
  obtain ⟨himport, h⟩ := (Bool.and_eq_true _ _).mp h
  obtain ⟨specifier, hspecifier, h⟩ := List.any_eq_true.mp h
  obtain ⟨hkind, h⟩ := (Bool.and_eq_true _ _).mp h
  obtain ⟨name, hname, h⟩ := (Option.any_eq_true _ _).mp h
  rw [Bool.and_eq_true, beq_iff_eq, beq_iff_eq] at h
  refine ⟨⟨statement, specifier, name, hstatement, beq_iff_eq.mp himport, hspecifier,
    beq_iff_eq.mp hkind, hname, Or.inl h.1⟩, h.1, ?_⟩
  rw [NamedImport.requested_of_identifier _ h.1, h.2]

theorem importers_check :
    (tips.draft? (importer "Tip" "./Tip" "Tip")).any (fun r =>
      r.2.1.childRefs == ["Tip"] && asksForTip r.2.2.source.root &&
      (Identifiers.edits r.2.2.plan r.2.2.source.root).toOption == some tipEdits &&
      (Source.ofBytes (Edit.spliceFrom r.2.2.source.bytes 0 tipEdits) r.2.2.source.path
        r.2.2.source.language).toOption.isSome) = true ∧
    (tips.draft? (importer "Tip as T" "./Tip" "T")).any (fun r =>
      (Identifiers.edits r.2.2.plan r.2.2.source.root).toOption == some [] &&
      r.2.2.source.text.toOption == some (importer "Tip as T" "./Hint" "T")) = true ∧
    (Descriptor.ofText "export const Tip = () => <p/>;\n" "Tip.jsx").toOption.any (fun e =>
      e.name == "Tip" && (tips.plan e).toOption.any (·.targetName == "Hint")) = true := by
  decide +kernel

/-- An import that is used in a tag under its own name follows the file that it comes from. -/
theorem tagged_import_follows :
    ∃ s d out mid, Source.parse (importer "Tip" "./Tip" "Tip") "M.jsx" = .ok s ∧
      Descriptor.ofTree s.root s.language "M.jsx" = .ok d ∧ tips.adapt s d = .ok out ∧
      tips.beforeNames s d = .ok mid ∧ ∃ i : NamedImport mid.source.root, i.requested = "Tip" ∧
        i.Follows tips d tipOf "./Tip" ∧ i.ChangesTo (tips.renamesOf d) "Hint" := by
  obtain ⟨htip, -, -⟩ := importers_check
  obtain ⟨s, d, mid, hs, hd, hmid, hcheck⟩ := exists_of_draft? htip
  simp only [Bool.and_eq_true, beq_iff_eq] at hcheck
  obtain ⟨⟨⟨hrefs, hasks⟩, hedits⟩, hread⟩ := hcheck
  obtain ⟨t, ht⟩ := Option.isSome_iff_exists.mp hread
  have hadapt : tips.adapt s d = .ok ⟨t, mid.plan⟩ :=
    adapt_tips hmid (ok_of_toOption hedits)
      (Source.apply_of_pairwise (by decide) (by decide) (ok_of_toOption ht))
  obtain ⟨i, hkind, hrequested⟩ := exists_import_of_asksForTip hasks
  obtain ⟨site, mid', named, edits, hsite, hmid', -, -, -, himports⟩ :=
    named_imports_follow_iff hd hadapt tipOf
  obtain rfl := Except.ok.inj (hmid.symm.trans hmid')
  obtain ⟨site', hsite', -, -, hrefs'⟩ := Descriptor.exists_site hd
  obtain rfl := Except.ok.inj (hsite.symm.trans hsite')
  have hfile : ∃ file, tips.sibling? "M.jsx" "./Tip" = some file ∧
      tipOf file.path = some i.requested := by
    rw [hrequested]
    exact ⟨⟨"Tip.jsx", .extension⟩, by decide, by decide⟩
  have htagged : Imports.Tagged s.root site.callable i.requested := by
    rw [← Imports.mem_childRefs_iff, ← hrefs', hrefs, hrequested]
    exact List.mem_singleton_self "Tip"
  have hfollows := ((himports i).2 "./Tip").mpr fun _ =>
    iff_of_true ⟨hkind, Or.inr htagged⟩ hfile
  refine ⟨s, d, _, mid, hs, hd, hadapt, hmid, i, hrequested, hfollows, (hfollows "Hint").mpr ?_⟩
  obtain ⟨-, -, hsource, -, -⟩ := Descriptor.exists_site hd
  rw [hsource]
  refine ⟨hfile, ?_⟩
  rw [hrequested]
  decide

/-- **An import under another name is left as it was.**  The module names a file of the batch with
the component `Tip`, which is called `Hint` afterwards; the import still asks for `Tip`. -/
theorem aliased_import_left :
    tips.sibling? "M.jsx" "./Tip" = some ⟨"Tip.jsx", .extension⟩ ∧
    tips.override? "Tip" = some "Hint" ∧
    (∃ e p, Descriptor.ofText "export const Tip = () => <p/>;\n" "Tip.jsx" = .ok e ∧
      e.name = "Tip" ∧ tips.plan e = .ok p ∧ p.targetName = "Hint") ∧
    ∃ s d out, Source.parse (importer "Tip as T" "./Tip" "T") "M.jsx" = .ok s ∧
      Descriptor.ofTree s.root s.language "M.jsx" = .ok d ∧ tips.adapt s d = .ok out ∧
      out.source.text = .ok (importer "Tip as T" "./Hint" "T") := by
  obtain ⟨-, hadapted, htip⟩ := importers_check
  refine ⟨by decide, by decide, ?_, ?_⟩
  · obtain ⟨e, he, hcheck⟩ := (Option.any_eq_true _ _).mp htip
    obtain ⟨hname, hplan⟩ := (Bool.and_eq_true _ _).mp hcheck
    obtain ⟨p, hp, htarget⟩ := (Option.any_eq_true _ _).mp hplan
    exact ⟨e, p, ok_of_toOption he, beq_iff_eq.mp hname, ok_of_toOption hp,
      beq_iff_eq.mp htarget⟩
  · obtain ⟨s, d, mid, hs, hd, hmid, hcheck⟩ := exists_of_draft? hadapted
    obtain ⟨hedits, htext⟩ := (Bool.and_eq_true _ _).mp hcheck
    have hadapt : tips.adapt s d = .ok ⟨mid.source, mid.plan⟩ :=
      adapt_tips hmid (ok_of_toOption (beq_iff_eq.mp hedits)) rfl
    exact ⟨s, d, _, hs, hd, hadapt, ok_of_toOption (beq_iff_eq.mp htext)⟩

end Batch
end Transplant
