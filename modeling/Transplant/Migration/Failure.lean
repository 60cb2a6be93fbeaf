import Transplant.Adapt.Basic
import Transplant.Files.Access
import Transplant.Report.Event

/-!
# Failed files

Why a single file of a batch fails. A failure is told in one last event of the file; the batch goes
on.
-/

namespace Transplant

/-- Why a file fails. -/
inductive Failure where
  | unreadable (source : String) (cause : ReadError)
  | analysis (cause : AnalysisError)
  | refused (refusal : Refusal)
  /-- An edit made the source unreadable. -/
  | broken (cause : SyntaxError)
  | unwritable (source : String) (cause : FileError)
  /-- Something that nobody has foreseen, with the word for its kind. -/
  | unexpected (words kind : String)

namespace Failure

/-- The wording of a failure. -/
def message : Failure → String
  | .unreadable source cause => s!"Could not read {source}: {cause.message}"
  | .analysis cause => cause.message
  | .refused refusal => refusal.message
  | .broken cause => cause.message
  | .unwritable source cause => s!"Could not write output for {source}: {cause.message}"
  | .unexpected words _ => "Unexpected failure: " ++ words

/-- The word for the kind of a failure. -/
def kind : Failure → String
  | .unreadable .. => "ReadError"
  | .analysis cause => cause.kind
  | .refused refusal => refusal.conflict.kind.name
  | .broken _ => "ParseError"
  | .unwritable .. => "WriteError"
  | .unexpected _ kind => kind

/-- A value that an operation cannot use. -/
def badValue (words : String) : Failure := .unexpected words "ValueError"

/-- The failure of a path operation. -/
def ofPath (e : PathError) : Failure := badValue e.message

/-- The failure of a plan. -/
def ofPlan : PlanError → Failure
  | .refused r => .refused r
  | .badPath e => ofPath e
  | .namelessDirectory kind => .unexpected (PlanError.namelessDirectory kind).message "TypeError"

/-- The failure of an adaptation. -/
def ofAdapt : AdaptError → Failure
  | .analysis e => .analysis e
  | .plan e => ofPlan e
  | .namelessAttribute kind =>
    .unexpected (AdaptError.namelessAttribute kind).message "AttributeError"
  | .edit (.broken e) => .broken e
  | .edit (.overlap path start) => badValue (EditError.overlap path start).message

/-- What there was to warn about before the failure. -/
def warnings : Failure → List String
  | .refused refusal => refusal.plan.warnings
  | _ => []

end Failure

/-- The events of a file that fails: the failure comes last. -/
def FileEvents.fail (f : FileEvents) (failure : Failure) : FileEvents :=
  (f.error failure.message failure.kind).finish .failed

end Transplant
