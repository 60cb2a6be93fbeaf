import Transplant.Proofs.Defaults.Lifts
import Transplant.Proofs.Defaults.Moves

/-!
# Which defaults survive a change of style

Defaults that are moved between the object and the parameter change their rank: what the object
gives to a prop goes before its initializer.  This file says exactly when a component takes the same
defaults as before, whatever its spreads and expressions mean.

* `Harmless`: the condition for each of the two styles
* `normalize_preserves_iff`: the component takes the same defaults exactly under the condition
* `literal_after_spread_lost`: a default that is lost
-/

namespace Transplant
namespace Defaults

/-! ## Both styles -/

/-- The change to a style is harmless. -/
def Harmless (style : DefaultStyle) (site : Site) (pattern : Node)
    (defaults : Option Site.Defaults) : Prop :=
  match style with
  | .explicit => MovesHarmless pattern (entriesOf defaults)
  | .assigned => LiftsHarmless site pattern defaults

/-- **Bringing the defaults of a component into a style changes none of them exactly if that is
harmless.**  The edits that are made are those of the rewriting.  They give something that can be
read, and from which every prop gets the default that it had, whatever the program around it means,
if and only if the change is harmless. -/
theorem normalize_preserves_iff (style : DefaultStyle) (source : Source) {site : Site}
    {param pattern : Node} (hparam : (Function.params site.callable).head? = some param)
    (hpattern : (Function.pattern param).1 = pattern) (hkind : pattern.kind = .objectPattern)
    (hmembers : (pattern.parts.map (·.start)).Nodup)
    (hregular : ∀ m ∈ pattern.parts, regular m = true)
    (hentries : ((entriesOf (Site.defaults? source.root site)).map (·.start)).Nodup) :
    (normalize style source site).edits =
        (rewriting style site pattern (Site.defaults? source.root site)).edits source.bytes site
          (Site.defaults? source.root site) ∧
      (((rewriting style site pattern (Site.defaults? source.root site)).Readable ∧
        ∀ (V : Type) (I : Interpretation V) (prop : String),
          I.effective
            (pattern.parts.map
              (rewriting style site pattern (Site.defaults? source.root site)).member)
            (rewriting style site pattern (Site.defaults? source.root site)).entries prop =
          I.effective pattern.parts (entriesOf (Site.defaults? source.root site)) prop) ↔
        Harmless style site pattern (Site.defaults? source.root site)) := by
  have htidy : Tidy pattern (Site.defaults? source.root site) :=
    ⟨hmembers, hregular, hentries, fun d hd => pairs_of_defaults? hd⟩
  refine ⟨normalize_edits style source hparam hpattern hkind, ?_⟩
  cases style with
  | explicit => exact moves_preserve_iff htidy site
  | assigned => exact lifts_preserve_iff htidy

/-! ### An entry in front of a spread and one behind it -/

/-- A component whose object of defaults has some entries. -/
def sampleText (entries : String) : String :=
  "export const B = (\x7b a \x7d) => <p/>;\nB.defaultProps = \x7b " ++ entries ++ " \x7d;\n"

/-- A file with the component in it and the parameter of that. -/
structure Sample where
  source : Source
  site : Site
  param : Node

/-- The sample with some entries, if it can be read. -/
def sample? (entries : String) : Option Sample := do
  let source ← (Source.parse (sampleText entries) "B.jsx").toOption
  let site ← (Site.locate source.root "B.jsx").toOption
  let param ← (Function.params site.callable).head?
  return ⟨source, site, param⟩

namespace Sample

variable (s : Sample)

/-- The pattern of the parameter. -/
def pattern : Node := (Function.pattern s.param).1

/-- The object of defaults. -/
def defaults : Option Site.Defaults := Site.defaults? s.source.root s.site

/-- The rewriting that moves defaults into the parameter. -/
def moved : Rewriting := rewriting .explicit s.site s.pattern s.defaults

/-- What is asked of the sample for its defaults to be kept. -/
structure Kept : Prop where
  kind : s.pattern.kind = .objectPattern
  members : (s.pattern.parts.map (·.start)).Nodup
  regular : ∀ m ∈ s.pattern.parts, regular m = true
  entries : ((entriesOf s.defaults).map (·.start)).Nodup
  harmless : MovesHarmless s.pattern (entriesOf s.defaults)

instance : Decidable s.Kept :=
  decidable_of_iff (s.pattern.kind = .objectPattern ∧ (s.pattern.parts.map (·.start)).Nodup ∧
      (∀ m ∈ s.pattern.parts, Defaults.regular m = true) ∧
      ((entriesOf s.defaults).map (·.start)).Nodup ∧ MovesHarmless s.pattern (entriesOf s.defaults))
    ⟨fun h => ⟨h.1, h.2.1, h.2.2.1, h.2.2.2.1, h.2.2.2.2⟩,
      fun h => ⟨h.kind, h.members, h.regular, h.entries, h.harmless⟩⟩

end Sample

theorem param_of_sample? {entries : String} {s : Sample} (h : sample? entries = some s) :
    (Function.params s.site.callable).head? = some s.param := by
  simp only [sample?, bind, Option.bind_eq_some_iff] at h
  obtain ⟨source, -, site, -, param, hparam, hs⟩ := h
  rw [← Option.some.inj hs]
  exact hparam

theorem exists_of_any {entries : String} {P : Sample → Prop} [DecidablePred P]
    (h : (sample? entries).any (fun s => decide (P s)) = true) :
    ∃ s, sample? entries = some s ∧ P s := by
  obtain ⟨s, hs, hP⟩ := Option.any_eq_true _ _ |>.mp h
  exact ⟨s, hs, of_decide_eq_true hP⟩

/-- An entry in front of a spread can be moved. -/
theorem literal_before_spread_kept :
    ∃ s, sample? "a: 1, ...rest" = some s ∧ s.moved.Readable ∧
      ∀ (V : Type) (I : Interpretation V) (prop : String),
        I.effective (s.pattern.parts.map s.moved.member) s.moved.entries prop =
          I.effective s.pattern.parts (entriesOf s.defaults) prop := by
  obtain ⟨s, hs, hkept⟩ : ∃ s, sample? "a: 1, ...rest" = some s ∧ s.Kept :=
    exists_of_any (by decide +kernel)
  have hiff := normalize_preserves_iff .explicit s.source (param_of_sample? hs) rfl hkept.kind
    hkept.members hkept.regular hkept.entries
  exact ⟨s, hs, hiff.2.mpr hkept.harmless⟩

/-- An entry behind a spread is overtaken by it when it is moved. -/
theorem literal_after_spread_lost :
    ∃ s, sample? "...rest, a: 1" = some s ∧
      (normalize .explicit s.source s.site).edits =
        [⟨20, 21, "a = 1"⟩, ⟨51, 68, "\x7b ...rest \x7d"⟩] ∧
      (probe [53]).effective s.pattern.parts (entriesOf s.defaults) "a" = some false ∧
      (probe [53]).effective (s.pattern.parts.map s.moved.member) s.moved.entries "a" = some true :=
  exists_of_any (by decide +kernel)

end Defaults
end Transplant
