import Transplant.Adapt.Defaults
import Transplant.Adapt.Header
import Transplant.Adapt.Identifiers
import Transplant.Adapt.Specifiers
import Transplant.Adapt.TestAttributes

/-!
# Sources adapted to a target project

A source goes through five passes: defaults, test attributes, specifiers, identifiers, header. Each
pass makes its edits on the result of the one before, which is read again, and may add to the plan.

* `Batch.adapt`: the source after all passes, with the plan as it has grown
-/

namespace Transplant

/-- Why a source cannot be adapted. -/
inductive AdaptError where
  | analysis (cause : AnalysisError)
  | plan (cause : PlanError)
  | edit (cause : EditError)
  /-- The test attribute of the target is not named by a text. -/
  | namelessAttribute (kind : String)
deriving DecidableEq

/-- The wording of a failed adaptation. -/
def AdaptError.message : AdaptError → String
  | .analysis e => e.message
  | .plan e => e.message
  | .edit e => e.message
  | .namelessAttribute kind => s!"'{kind}' object has no attribute 'encode'"

/-- A source that is being adapted, with its plan. -/
structure Draft where
  source : Source
  plan : Plan

namespace Draft

/-- The draft after some edits. -/
def edit (d : Draft) (edits : List Edit) : Except AdaptError Draft :=
  match d.source.apply edits with
  | .ok source => .ok { d with source }
  | .error e => .error (.edit e)

/-- The draft with its defaults in the style of the target. -/
def normalizeDefaults (b : Batch) (d : Draft) : Except AdaptError Draft := do
  let site ← (Site.locate d.source.root d.plan.descriptor.sourcePath).mapError .analysis
  let outcome := Defaults.normalize b.naming.defaultStyle d.source site
  { d with plan := outcome.warnings.foldl Plan.warn d.plan }.edit outcome.edits

/-- The draft with the test attribute of the target. -/
def renameTestAttributes (b : Batch) (d : Draft) : Except AdaptError Draft := do
  let edits ← (TestAttributes.edits b.naming d.source.root).mapError .namelessAttribute
  d.edit edits

/-- The draft with its imports resolved. -/
def resolveSpecifiers (b : Batch) (d : Draft) : Except AdaptError Draft := do
  let (plan, edits) ← (Specifiers.edits b d.plan d.source.root).mapError .plan
  { d with plan }.edit edits

/-- The draft with its names replaced. -/
def renameIdentifiers (_ : Batch) (d : Draft) : Except AdaptError Draft := do
  let edits ← (Identifiers.edits d.plan d.source.root).mapError (.plan ∘ .refused)
  d.edit edits

/-- The draft with its header. -/
def addHeader (b : Batch) (d : Draft) : Except AdaptError Draft :=
  d.edit (Header.edits b.naming d.plan d.source.bytes)

end Draft

namespace Batch

/-- A source after all passes, for a given plan. -/
def adaptWith (b : Batch) (source : Source) (plan : Plan) : Except AdaptError Draft := do
  let d ← Draft.normalizeDefaults b ⟨source, plan⟩
  let d ← Draft.renameTestAttributes b d
  let d ← Draft.resolveSpecifiers b d
  let d ← Draft.renameIdentifiers b d
  Draft.addHeader b d

/-- A source after all passes, with a plan of its own. -/
def adapt (b : Batch) (source : Source) (d : Descriptor) : Except AdaptError Draft := do
  let plan ← (b.plan d).mapError .plan
  b.adaptWith source plan

end Batch
end Transplant
