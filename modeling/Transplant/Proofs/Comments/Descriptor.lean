import Transplant.Component.Visibility
import Transplant.Source.Basic
import Transplant.Proofs.Comments.Props

/-!
# What comments do to an analysis

In a tidy tree they do nothing: the component is found where it was, under its name, with its
wrapper and its way of export, and it has the same props and the same gate.  In a tree that is not
tidy one comment is enough to lose the component, since a comment right behind an opening
parenthesis is taken for what the parentheses hold.

* `Visibility.ofComponent?_uncommented`: the gate
* `Site.analysis_uncommented`: all that is known about the component
* `Site.commented_markup_missed`: a component that is lost
-/

namespace Transplant

open Node Expression

namespace Visibility

theorem subject?_uncommented (x : Props.Extracted) {condition : Node} (h : condition.Tidy) :
    subject? x condition.uncommented = subject? x condition := by
  have hargument : (condition.unwrap.uncommented.child? .argument).bind x.reference? =
      (condition.unwrap.child? .argument).bind x.reference? := by
    rw [child?_uncommented h.unwrap]
    exact bind_map_uncommented_of_same fun c hc =>
      Props.reference?_uncommented x (h.unwrap.of_child? hc)
  simp only [subject?, unwrap_uncommented h, kind_uncommented, operatorText?_uncommented h.unwrap,
    hargument, Props.reference?_uncommented x h.unwrap]

theorem bind_subject?_uncommented (x : Props.Extracted) {n : Node} (h : n.Tidy) (r : Role) :
    ((n.child? r).map uncommented).bind (subject? x) = (n.child? r).bind (subject? x) :=
  bind_map_uncommented_of_same fun _ hc => subject?_uncommented x (h.of_child? hc)

theorem ofExpression?_uncommented (x : Props.Extracted) {e : Node} (h : e.Tidy) :
    ofExpression? x e.uncommented = ofExpression? x e := by
  have hnothing (r : Role) : ((e.unwrap.child? r).map uncommented).any isNothing =
      (e.unwrap.child? r).any isNothing :=
    any_map_uncommented fun c hc => isNothing_uncommented (h.unwrap.of_child? hc)
  have hmarkup (r : Role) : ((e.unwrap.child? r).map uncommented).any returnsMarkup =
      (e.unwrap.child? r).any returnsMarkup :=
    any_map_uncommented fun c hc => returnsMarkup_uncommented (h.unwrap.of_child? hc)
  simp only [ofExpression?, unwrap_uncommented h, kind_uncommented, child?_uncommented h.unwrap,
    operatorText?_uncommented h.unwrap, bind_subject?_uncommented x h.unwrap, hmarkup]
  split
  · split
    · rename_i hsubject
      simp only [hsubject, hnothing, hmarkup]
    · rename_i hsubject
      simp only [hsubject]
  · rfl
  · rfl

theorem returnsNothing_eq (n : Node) :
    returnsNothing n =
      if n.kind == .statementBlock then (n.firstPart?.map returnsNothing).getD false
      else if n.kind == .returnStatement then n.firstPart?.all isNothing
      else false := by
  rw [← eq_firstPart (F := firstReturnsNothing) (by rw [firstReturnsNothing])
    (fun c rest => by rw [firstReturnsNothing]), ← find?_part]
  cases n with
  | mk kind role start stop line text children =>
    rw [returnsNothing]
    cases children.find? fun c => c.kind != .token && c.kind != .comment <;> rfl

theorem returnsNothing_uncommented {n : Node} (h : n.Tidy) :
    returnsNothing n.uncommented = returnsNothing n := by
  induction n using induct_below with
  | _ n ih =>
    rw [returnsNothing_eq, returnsNothing_eq n, kind_uncommented, firstPart?_uncommented]
    cases hpart : n.firstPart? with
    | none => rfl
    | some c =>
      have htidy := h.of_firstPart? hpart
      simp only [Option.map_some, Option.getD_some, Option.all_some, isNothing_uncommented htidy,
        ih c (mem_below_of_mem_parts (List.mem_of_head? hpart)) htidy]

theorem ofStatements?_uncommented (x : Props.Extracted) {l : List Node} (h : ∀ s ∈ l, s.Tidy) :
    ofStatements? x (l.map uncommented) = ofStatements? x l := by
  induction l with
  | nil => rfl
  | cons s rest ih =>
    have hs := h s List.mem_cons_self
    have hrest := ih fun m hm => h m (List.mem_cons_of_mem _ hm)
    have hreturn : (s.firstPart?.map uncommented).bind (ofExpression? x) =
        s.firstPart?.bind (ofExpression? x) :=
      bind_map_uncommented_of_same fun c hc => ofExpression?_uncommented x (hs.of_firstPart? hc)
    rw [List.map_cons, ofStatements?, ofStatements?, kind_uncommented, child?_uncommented hs,
      child?_uncommented hs, bind_subject?_uncommented x hs, firstPart?_uncommented, hreturn, hrest]
    cases hconsequence : s.child? .consequence with
    | none => rfl
    | some consequence =>
      cases (s.child? .condition).bind (subject? x) <;>
        simp only [Option.map_some, returnsNothing_uncommented (hs.of_child? hconsequence)]

theorem ofComponent?_uncommented (x : Props.Extracted) {site : Site} (h : site.Tidy) :
    ofComponent? x site.uncommented = ofComponent? x site := by
  have hbody : (site.uncommented.callable.child? .body).bind (fun body =>
      if body.kind == .statementBlock then ofStatements? x body.parts else ofExpression? x body) =
      (site.callable.child? .body).bind (fun body =>
        if body.kind == .statementBlock then ofStatements? x body.parts
        else ofExpression? x body) := by
    rw [show site.uncommented.callable.child? .body = _ from child?_uncommented h.1 .body]
    cases hbody : site.callable.child? .body with
    | none => rfl
    | some body =>
      have htidy := h.1.of_child? hbody
      simp only [Option.map_some, Option.bind_some, kind_uncommented, parts_uncommented,
        ofStatements?_uncommented x fun s hs => htidy.of_mem_parts hs,
        ofExpression?_uncommented x htidy]
  simp only [ofComponent?, hbody]

end Visibility

namespace Site

/-- **An analysis does not depend on comments, unless a wrapper begins with one.**  In a tidy tree
the component is found with and without the comments, or is missed for the same reason; name,
binding, wrapper and export are the same, and so are the props and the gate. -/
theorem analysis_uncommented {root : Node} (h : root.Tidy) (path : String) :
    locate root.uncommented path = (locate root path).map uncommented ∧
      ∀ site, locate root path = .ok site →
        Props.extract root.uncommented site.uncommented = Props.extract root site ∧
        Visibility.ofComponent? (Props.extract root.uncommented site.uncommented) site.uncommented =
          Visibility.ofComponent? (Props.extract root site) site := by
  obtain ⟨hlocate, htidy⟩ := locate_uncommented h path
  refine ⟨hlocate, fun site hsite => ?_⟩
  have hprops := Props.extract_uncommented h (htidy site hsite)
  refine ⟨hprops, ?_⟩
  rw [hprops]
  exact Visibility.ofComponent?_uncommented _ (htidy site hsite)

/-- A text that is read as a tree with a decidable property. -/
theorem exists_parse (text path : String) {P : Source → Prop} [DecidablePred P]
    (h : (Source.parse text path).toOption.any (fun s => decide (P s)) = true) :
    ∃ s, Source.parse text path = .ok s ∧ P s := by
  cases hs : Source.parse text path with
  | error e =>
    rw [hs] at h
    cases h
  | ok s =>
    rw [hs] at h
    exact ⟨s, rfl, of_decide_eq_true h⟩

/-- A text whose component is found, with a decidable property of its tree and its place. -/
theorem exists_site (text path : String) {P : Source → Site → Prop} [∀ s, DecidablePred (P s)]
    (h : ((Source.parse text path).toOption.any fun s =>
      (locate s.root path).toOption.any fun site => decide (P s site)) = true) :
    ∃ s site, Source.parse text path = .ok s ∧ locate s.root path = .ok site ∧ P s site := by
  obtain ⟨s, hs, hfound⟩ := exists_parse text path
    (P := fun s => ((locate s.root path).toOption.any fun site => decide (P s site)) = true)
    (by simpa only [Bool.decide_eq_true] using h)
  cases hsite : locate s.root path with
  | error e =>
    rw [hsite] at hfound
    cases hfound
  | ok site =>
    rw [hsite] at hfound
    exact ⟨s, site, hs, hsite, of_decide_eq_true hfound⟩

/-- The texts of the comments of a tree. -/
def commentTexts (root : Node) : List String :=
  (root.walk.filter (·.kind == .comment)).map (·.text)

/-- A component with comments in its parameter, its condition and its markup. -/
def annotated : String :=
  "export const A = (\x7b open /* shown */ \x7d) => (open /* yet */) && (<p/> /* done */);\n"

/-- None of the three comments stands first in a wrapper. -/
theorem annotated_uncommented :
    ∃ s site, Source.parse annotated "A.jsx" = .ok s ∧ s.root.Tidy ∧
      (commentTexts s.root).length = 3 ∧ commentTexts s.root.uncommented = [] ∧
      locate s.root "A.jsx" = .ok site ∧ locate s.root.uncommented "A.jsx" = .ok site.uncommented ∧
      (Props.extract s.root.uncommented site.uncommented).props.map (·.name) = ["open"] ∧
      Visibility.ofComponent? (Props.extract s.root.uncommented site.uncommented) site.uncommented =
        some ⟨"open", true⟩ := by
  obtain ⟨s, hs, htidy, hcomments, hnone, hfound⟩ := exists_parse annotated "A.jsx"
    (P := fun s => s.root.Tidy ∧ (commentTexts s.root).length = 3 ∧
      commentTexts s.root.uncommented = [] ∧
      (locate s.root "A.jsx").toOption.any (fun site =>
        decide ((Props.extract s.root site).props.map (·.name) = ["open"] ∧
          Visibility.ofComponent? (Props.extract s.root site) site = some ⟨"open", true⟩)) = true)
    (by decide +kernel)
  obtain ⟨hlocate, hanalysis⟩ := analysis_uncommented htidy "A.jsx"
  cases hsite : locate s.root "A.jsx" with
  | error e =>
    rw [hsite] at hfound
    cases hfound
  | ok site =>
    rw [hsite] at hfound hlocate
    obtain ⟨hnames, hgate⟩ := of_decide_eq_true hfound
    obtain ⟨hprops, hvisibility⟩ := hanalysis site hsite
    exact ⟨s, site, hs, htidy, hcomments, hnone, hsite, hlocate, hprops ▸ hnames,
      hvisibility.trans hgate⟩

/-- A component whose markup is in parentheses, behind a comment. -/
def commentedMarkup : String := "export const A = () => (/* c */ <p/>);\n"

/-- The comment is taken for the content of the parentheses, and the component is missed.  Without
the comment it is found. -/
theorem commented_markup_missed :
    ∃ s, Source.parse commentedMarkup "A.jsx" = .ok s ∧ commentTexts s.root = ["/* c */"] ∧
      (∀ site, locate s.root "A.jsx" ≠ .ok site) ∧
      ∃ site, locate s.root.uncommented "A.jsx" = .ok site ∧ site.name = "A" := by
  obtain ⟨s, hs, htexts, hmissed, hfound⟩ := exists_parse commentedMarkup "A.jsx"
    (P := fun s => commentTexts s.root = ["/* c */"] ∧
      (locate s.root "A.jsx").toOption.isNone = true ∧
      (locate s.root.uncommented "A.jsx").toOption.any (·.name == "A") = true)
    (by decide +kernel)
  refine ⟨s, hs, htexts, fun site hsite => ?_, ?_⟩
  · rw [hsite] at hmissed
    cases hmissed
  · cases hsite : locate s.root.uncommented "A.jsx" with
    | error e =>
      rw [hsite] at hfound
      cases hfound
    | ok site =>
      rw [hsite] at hfound
      exact ⟨site, rfl, beq_iff_eq.mp hfound⟩

end Site
end Transplant
