import Transplant.Proofs.Adapt.Reading
import Transplant.Proofs.Plan.Respelling

/-!
# Adapting what has been adapted

In a batch in which nothing gets a new name or another place, a source that has been adapted should
be in its final form: adapting it again should change nothing.

A specifier that has been replaced is not replaced again (`Batch.keeps_of_resolve`).  With defaults
it is different.  Only the first object that is assigned to a component counts.  When all of its
entries are moved it is deleted, and then the next one counts.  What has been written has something
to be moved exactly if the next one has (`Defaults.settled_written_iff`).

* `Batch.AdaptsTo`: what comes of a text
* `Batch.next_object_moved`: a component that does not stay as it is
-/

namespace Transplant

namespace Batch

variable {b : Batch}

/-- A text is adapted under a path, and the text `adapted` comes of it. -/
def AdaptsTo (b : Batch) (path text adapted : String) : Prop :=
  ∃ s d out, Source.parse text path = .ok s ∧ Descriptor.ofTree s.root s.language path = .ok d ∧
    b.adapt s d = .ok out ∧ out.source.text = .ok adapted

/-- One text comes of a text. -/
theorem AdaptsTo.unique {path text adapted adapted' : String} (h : b.AdaptsTo path text adapted)
    (h' : b.AdaptsTo path text adapted') : adapted = adapted' := by
  obtain ⟨s, d, out, hs, hd, hout, htext⟩ := h
  obtain ⟨s', d', out', hs', hd', hout', htext'⟩ := h'
  obtain rfl := Except.ok.inj (hs.symm.trans hs')
  obtain rfl := Except.ok.inj (hd.symm.trans hd')
  obtain rfl := Except.ok.inj (hout.symm.trans hout')
  exact Except.ok.inj (htext.symm.trans htext')

/-! ## A component with two objects of defaults -/

/-- The component with all its defaults moved. -/
def allMoved : String := "export const B = (\x7b a = 1, b = 2 \x7d) => <p/>;\n"

/-- **The second object is moved when the component is adapted again.**  The first object counts
until it has been moved, and then the second one counts. -/
theorem next_object_moved :
    plain.Neutral ∧ plain.AdaptsTo "B.jsx" twoObjects oneObject ∧
      plain.AdaptsTo "B.jsx" oneObject allMoved ∧ ¬plain.AdaptsTo "B.jsx" oneObject oneObject := by
  obtain ⟨s, site, hs, hsite, -, hfirst⟩ := read_twoObjects
  obtain ⟨t, site', ht, hsite', -, hbare, hsecond⟩ := read_oneObject
  obtain ⟨u, -, hu, -, hbare'⟩ := exists_of_read? allMoved (fun u _ => Bare u.root)
    (by decide +kernel)
  have hone : plain.AdaptsTo "B.jsx" twoObjects oneObject := by
    obtain ⟨d, hd, hpath, -⟩ := Descriptor.exists_ofTree s.language hsite
    obtain ⟨p, hadapt, htext⟩ := adapt_twoObjects hs hpath hsite hfirst ht hbare
    exact ⟨s, d, ⟨t, p⟩, hs, hd, hadapt, htext⟩
  have hall : plain.AdaptsTo "B.jsx" oneObject allMoved := by
    obtain ⟨d, hd, hpath, -⟩ := Descriptor.exists_ofTree t.language hsite'
    obtain ⟨p, hadapt, htext⟩ := adapt_plain_text ht hpath hsite' hsecond hu hbare' (by decide)
      (by decide) (by decide) (by decide)
    exact ⟨t, d, ⟨u, p⟩, ht, hd, hadapt, htext⟩
  exact ⟨by decide, hone, hall, fun h => absurd (h.unique hall) (by decide)⟩

end Batch
end Transplant
