import Transplant.Proofs.Adapt.Mismatch
import Transplant.Proofs.Plan.Respelling

/-!
# Style files of a component

A style file that a component imports is copied, and the import is spelled for where the component
goes.  The two are decided apart from each other: the pass over the specifiers notes which style
files to copy and writes the specifiers, and `Batch.assetPath` says later where a copy goes.

They agree for the reason that an import of a style file names it as it is.  So what is spelled is
the place of the file below the root, and nothing is left out of it, and the copy goes to this very
place.  What a pass writes for a specifier depends on where the file comes from and where it goes,
and not on what has been noted or warned of before (`Batch.resolve_congr`); the same import gets the
same text wherever it stands.

* `Batch.style?`: the style file that a specifier names
* `Batch.written`: the text that is found in the place of a specifier after the pass
* `Specifiers.editsFrom_cases`: what the pass over the specifiers does
* `Batch.copied_styles_imported`: style files are copied to where they are imported from
-/

namespace Transplant

namespace Batch

/-- The style file of the batch that a relative specifier in a file names. -/
def style? (b : Batch) (source specifier : String) : Option String :=
  ((b.sibling? source specifier).map (·.path)).filter b.assets.contains

/-- What stands in the place of a specifier once the specifiers are resolved. -/
def written (b : Batch) (p : Plan) (specifier : String) : String :=
  ((b.resolve p specifier).2.toOption.join).getD specifier

variable {b : Batch} {p q : Plan} {specifier : String}

theorem style?_eq_some_iff {source a : String} : b.style? source specifier = some a ↔
    ∃ s, b.sibling? source specifier = some s ∧ s.path = a ∧ a ∈ b.assets := by
  rw [style?, Option.filter_eq_some_iff, Option.map_eq_some_iff, List.contains_iff_mem]
  constructor
  · rintro ⟨⟨s, hs, rfl⟩, ha⟩
    exact ⟨s, hs, rfl, ha⟩
  · rintro ⟨s, hs, rfl, ha⟩
    exact ⟨⟨s, hs, rfl⟩, ha⟩

/-- A specifier makes its style file noted, and nothing else. -/
theorem assets_resolve (b : Batch) (p : Plan) (specifier : String) :
    (b.resolve p specifier).1.assets =
      (b.style? p.descriptor.sourcePath specifier).toList.foldl insertNew p.assets := by
  cases hsibling : b.sibling? p.descriptor.sourcePath specifier with
  | some s =>
    rw [resolve_of_sibling hsibling, style?, hsibling, noted, Option.map_some, Option.filter_some]
    cases b.assets.contains s.path <;> rfl
  | none =>
    simp only [resolve, style?, hsibling]
    cases b.outside p.descriptor.sourcePath specifier with
    | redirected s => rfl
    | aliased s => rfl
    | package => rfl
    | unresolved => cases b.naming.mismatch <;> rfl

theorem targetPath_resolve (b : Batch) (p : Plan) (specifier : String) :
    (b.resolve p specifier).1.targetPath = p.targetPath :=
  resolve_leaves (fun _ _ => rfl) (fun _ _ => rfl) (fun _ _ => rfl) b p specifier

end Batch

namespace Specifiers

variable {b : Batch} {p q : Plan}

theorem edit?_getD (name : Node) (specifier : String) (new : Option String) :
    edit? name specifier (some (new.getD specifier)) = edit? name specifier new := by
  cases new with
  | none => simp [edit?]
  | some s => rfl

/-- A text that is there already is not put there. -/
theorem edit?_some (name : Node) (specifier s : String) :
    edit? name specifier (some s) =
      if s = specifier then none else some ⟨name.start + 1, name.stop - 1, s⟩ := by
  rw [edit?, Option.filter_some]
  by_cases h : s = specifier <;> simp [h]

/-- **What the pass does.**  Style files are noted in the order of the specifiers that name them, and
each specifier gets its text, as for any plan `p₀` of the file that puts it to the same place. -/
theorem editsFrom_cases {p₀ : Plan} {l : List (Node × String)} {edits : List Edit}
    (hsource : p₀.descriptor.sourcePath = p.descriptor.sourcePath)
    (htarget : p₀.targetPath = p.targetPath) (h : editsFrom b p l = .ok (q, edits)) :
    q.assets = (l.filterMap fun x => b.style? p₀.descriptor.sourcePath x.2).foldl insertNew
        p.assets ∧
      edits = (l.filterMap fun x => edit? x.1 x.2 (some (b.written p₀ x.2))) ∧
      ∀ x ∈ l, ∃ new, (b.resolve p₀ x.2).2 = .ok new := by
  induction l generalizing p edits with
  | nil =>
    obtain ⟨rfl, rfl⟩ := Prod.mk.inj (Except.ok.inj h)
    exact ⟨rfl, rfl, nofun⟩
  | cons x rest ih =>
    rw [editsFrom_cons] at h
    obtain ⟨new, hnew, h⟩ := exists_of_bind h
    have hnew₀ : (b.resolve p₀ x.2).2 = .ok new :=
      Batch.resolve_congr hsource.symm htarget.symm hnew
    cases hrest : editsFrom b (b.resolve p x.2).1 rest with
    | error e => simp [hrest, Except.map] at h
    | ok r =>
      obtain ⟨q', edits'⟩ := r
      simp only [hrest, Except.map, Except.ok.injEq] at h
      obtain ⟨rfl, rfl⟩ := Prod.mk.inj h
      obtain ⟨hassets, hedits, hresolved⟩ := ih
        (by rw [Batch.descriptor_resolve]; exact hsource)
        (by rw [Batch.targetPath_resolve]; exact htarget) hrest
      refine ⟨?_, ?_, fun y hy => ?_⟩
      · rw [hassets, Batch.assets_resolve, ← hsource, List.filterMap_cons]
        cases b.style? p₀.descriptor.sourcePath x.2 <;> rfl
      · have hwritten : b.written p₀ x.2 = new.getD x.2 := by
          rw [Batch.written, hnew₀]
          rfl
        have hedit : edit? x.1 x.2 (some (b.written p₀ x.2)) = edit? x.1 x.2 new := by
          rw [hwritten, edit?_getD]
        rw [hedits, List.filterMap_cons, hedit]
        cases edit? x.1 x.2 new <;> rfl
      · rcases List.mem_cons.mp hy with rfl | hy
        · exact ⟨new, hnew₀⟩
        · exact hresolved y hy

end Specifiers

namespace Batch

open Lexical
open Specifiers (inTree)

variable {b : Batch} {p : Plan}

/-- A style file that is no component file is named exactly. -/
theorem form_of_sibling? {source specifier : String} {s : Sibling}
    (h : b.sibling? source specifier = some s) (hs : s.path ∉ b.files) : s.form = .exact := by
  have hhas := List.find?_some (of_sibling? h).2.2
  rw [has, Bool.or_eq_true, Bool.and_eq_true, beq_iff_eq] at hhas
  exact (hhas.resolve_left fun hfile => hs (List.contains_iff_mem.mp hfile)).1

/-- **What is written for a style file leads to where it is copied.** -/
theorem written_style_leads_there {own : Path} {specifier a : String} {new : Option String}
    (hroot : b.root? = .ok b.root) (hsound : p.targetPath.Sound)
    (hown : b.root.LeadsDown p.targetPath own) (hfile : a ∉ b.files)
    (hplace : ∀ place given, b.targetOf a none = .ok (place, given) → place.Downward)
    (hstyle : b.style? p.descriptor.sourcePath specifier = some a)
    (hnew : (b.resolve p specifier).2 = .ok new) :
    ∃ path, b.assetPath a = .ok path ∧
      normalize (join (parent p.targetPath.toString) (b.written p specifier)) =
        normalize path.toString := by
  obtain ⟨s, hs, rfl, -⟩ := style?_eq_some_iff.mp hstyle
  have hform := form_of_sibling? hs hfile
  have hwritten : b.written p specifier = new.getD specifier := by
    rw [written, hnew]
    rfl
  rw [resolve_sibling hs] at hnew
  cases htarget : b.targetOf s.path none with
  | error e =>
    simp [siblingSpecifier, htarget, bind, Except.bind, Except.map, Except.mapError] at hnew
  | ok found =>
    obtain ⟨place, given⟩ := found
    have hdown := hplace place given htarget
    obtain ⟨r, hr, -, hnormal⟩ | ⟨hextension, -, -⟩ :=
      siblingSpecifier_cases specifier htarget hdown.root hown.relative
    · rw [hr] at hnew
      obtain rfl := Except.ok.inj hnew
      refine ⟨b.root ++ place, ?_, ?_⟩
      · simp only [assetPath, hroot, htarget, bind, Except.bind, Except.mapError]
        rfl
      · rw [hform] at hnormal
        rw [hwritten]
        exact normalize_join_below hown hsound (loose_targetOf htarget) hdown hnormal
    · rw [hform] at hextension
      cases hextension

/-- **Style files are copied to where they are imported from.**  Let the specifiers of a tree be
resolved for the plan of a component, whatever has been warned of before.  The component is to go
below the root of the batch, and so are the style files, which are no component files.

Then the style files that the plan notes are those that specifiers of the tree name, each once and
in the order in which they are first named.  The edits put what is written for a specifier between
the quotes, where it is not there already.  And for each specifier that names a style file, what is
written leads from the new directory of the component to the very path that the file is copied
to. -/
theorem copied_styles_imported {d : Descriptor} {own : Path} (hplan : b.plan d = .ok p)
    (hsound : p.targetPath.Sound) (hown : b.root.LeadsDown p.targetPath own)
    (hstyles : ∀ a ∈ b.assets, a ∉ b.files ∧
      ∀ place given, b.targetOf a none = .ok (place, given) → place.Downward)
    {warnings : List String} {root : Node} {q : Plan} {edits : List Edit}
    (h : Specifiers.edits b (p.warnAll warnings) root = .ok (q, edits)) :
    q.assets = ((inTree root).filterMap fun x => b.style? d.sourcePath x.2).eraseDups ∧
    edits = ((inTree root).filterMap fun x =>
      if b.written p x.2 = x.2 then none
      else some ⟨x.1.start + 1, x.1.stop - 1, b.written p x.2⟩) ∧
    ∀ x ∈ inTree root, ∀ a, b.style? d.sourcePath x.2 = some a →
      ∃ path, b.assetPath a = .ok path ∧
        normalize (join (parent p.targetPath.toString) (b.written p x.2)) =
          normalize path.toString := by
  obtain ⟨place, given, -, hdescriptor, -⟩ := plan_cases hplan
  have hsource : p.descriptor.sourcePath = (p.warnAll warnings).descriptor.sourcePath := rfl
  have htarget : p.targetPath = (p.warnAll warnings).targetPath := rfl
  obtain ⟨hassets, hedits, hresolved⟩ := Specifiers.editsFrom_cases hsource htarget h
  rw [hdescriptor] at hassets
  refine ⟨?_, by simp only [hedits, Specifiers.edit?_some], fun x hx a hstyle => ?_⟩
  · have hnone : (p.warnAll warnings).assets = [] := by
      obtain ⟨place, given, -, rfl⟩ := plan_eq_planAt hplan
      rfl
    rw [hassets, hnone, foldl_insertNew, List.nil_append, List.filter_eq_self.mpr (by simp)]
  · have hroot : b.root? = .ok b.root := by
      obtain ⟨found, -, hrest⟩ := exists_of_bind hplan
      obtain ⟨root, hroot, -⟩ := exists_of_bind hrest
      rw [hroot, eq_root_of_root? hroot]
    obtain ⟨s, -, -, hasset⟩ := style?_eq_some_iff.mp hstyle
    obtain ⟨new, hnew⟩ := hresolved x hx
    rw [← hdescriptor] at hstyle
    exact written_style_leads_there hroot hsound hown (hstyles a hasset).1 (hstyles a hasset).2
      hstyle hnew

/-! ### A page that is moved, with a style file that gets a new name -/

/-- A page that imports its style file twice, in two spellings. -/
def styledPage : String :=
  "import '../styles/home.css';\nimport '.././styles//home.css';\n" ++
    "export const Home = () => <p/>;\n"

/-- The page is to go further down, and the style file gets a new name. -/
def styled : Batch where
  naming := {
    renames := Table.empty.put "home" "landing"
    pathOverrides := Table.ofPairs [("pages/Home.jsx", "views/main/Home.jsx")] }
  files := ["pages/Home.jsx"]
  assets := ["styles/home.css"]

/-- The plan of the page. -/
def styledPlan : Plan := styled.planAt home ⟨"", ["views", "main", "Home.jsx"]⟩ true

theorem styled_check :
    (Source.parse styledPage "pages/Home.jsx").toOption.any (fun s =>
      (Specifiers.edits styled styledPlan s.root).toOption.isSome &&
        (inTree s.root).map (fun x => (x.1.start, x.1.stop, x.2)) ==
          [(7, 27, "../styles/home.css"), (36, 59, ".././styles//home.css")]) = true := by
  decide +kernel

/-- Both imports of the style file are spelled for its only copy. -/
theorem respelled_style_imported :
    ∃ s q, Source.parse styledPage "pages/Home.jsx" = .ok s ∧
      styled.plan home = .ok styledPlan ∧
      Specifiers.edits styled styledPlan s.root = .ok (q,
        [⟨8, 26, "../../styles/landing.css"⟩, ⟨37, 58, "../../styles/landing.css"⟩]) ∧
      q.assets = ["styles/home.css"] ∧
      ∀ x ∈ inTree s.root,
        normalize (join (parent styledPlan.targetPath.toString) (styled.written styledPlan x.2)) =
          "src/components_migrated_from_source/styles/landing.css" := by
  obtain ⟨s, hread, hcheck⟩ := (Option.any_eq_true _ _).mp styled_check
  rw [Bool.and_eq_true, beq_iff_eq] at hcheck
  obtain ⟨hsome, hplaces⟩ := hcheck
  obtain ⟨⟨q, edits⟩, hedits⟩ := Option.isSome_iff_exists.mp hsome
  have hplan : styled.plan home = .ok styledPlan := by decide +kernel
  have hsound : styledPlan.targetPath.Sound := ⟨Or.inl (by decide), by decide⟩
  have hown : styled.root.LeadsDown styledPlan.targetPath ⟨"", ["views", "main", "Home.jsx"]⟩ :=
    ⟨by decide, by decide, by decide⟩
  have hstyles : ∀ a ∈ styled.assets, a ∉ styled.files ∧
      ∀ place given, styled.targetOf a none = .ok (place, given) → place.Downward := by
    intro a ha
    obtain rfl := List.mem_singleton.mp ha
    have htarget : styled.targetOf "styles/home.css" none =
        .ok (⟨"", ["styles", "landing.css"]⟩, false) := by decide
    refine ⟨by decide, fun place given hplace => ?_⟩
    obtain ⟨rfl, -⟩ := Prod.mk.inj (Except.ok.inj (htarget.symm.trans hplace))
    decide
  have hpass : Specifiers.edits styled (styledPlan.warnAll []) s.root = .ok (q, edits) := by
    rw [Plan.warnAll_nil]
    exact ok_of_toOption hedits
  obtain ⟨hassets, hspelled, hleads⟩ := copied_styles_imported hplan hsound hown hstyles hpass
  have hnames : (inTree s.root).map (·.2) = ["../styles/home.css", ".././styles//home.css"] := by
    have h := congrArg (List.map fun x => x.2.2) hplaces
    rwa [List.map_map] at h
  have hstyle : ∀ specifier ∈ ["../styles/home.css", ".././styles//home.css"],
      styled.style? home.sourcePath specifier = some "styles/home.css" := by decide
  have hmem : ∀ x ∈ inTree s.root, x.2 ∈ ["../styles/home.css", ".././styles//home.css"] := by
    intro x hx
    rw [← hnames]
    exact List.mem_map_of_mem hx
  have hwritten : edits =
      [⟨8, 26, "../../styles/landing.css"⟩, ⟨37, 58, "../../styles/landing.css"⟩] := by
    have hmap : edits =
        ((inTree s.root).map fun x => (x.1.start, x.1.stop, x.2)).filterMap fun x =>
          if styled.written styledPlan x.2.2 = x.2.2 then none
          else some ⟨x.1 + 1, x.2.1 - 1, styled.written styledPlan x.2.2⟩ := by
      rw [hspelled, List.filterMap_map]
      rfl
    rw [hmap, hplaces]
    decide +kernel
  refine ⟨s, q, ok_of_toOption hread, hplan, hwritten ▸ ok_of_toOption hedits, ?_,
    fun x hx => ?_⟩
  · have hmap : ((inTree s.root).filterMap fun x => styled.style? home.sourcePath x.2) =
        ((inTree s.root).map (·.2)).filterMap (styled.style? home.sourcePath) := by
      rw [List.filterMap_map]
      rfl
    rw [hassets, hmap, hnames]
    decide +kernel
  · obtain ⟨path, hpath, hnormal⟩ := hleads x hx _ (hstyle x.2 (hmem x hx))
    have hcopy : styled.assetPath "styles/home.css" =
        .ok (styled.root ++ ⟨"", ["styles", "landing.css"]⟩) := by decide
    obtain rfl := Except.ok.inj (hcopy.symm.trans hpath)
    exact hnormal.trans (by decide +kernel)

end Batch
end Transplant
