import Transplant.Source.Basic

/-!
# Failed analyses

A file has no descriptor if it cannot be read, or if it does not hold exactly one component.
-/

namespace Transplant

/-- Why a file has no descriptor. -/
inductive AnalysisError where
  | unparseable (path : String) (cause : SyntaxError)
  | noComponent (path : String)
  | severalComponents (path : String) (count : Nat) (names : List String)
deriving DecidableEq, Repr

/-- The word for the kind of a failed analysis. -/
def AnalysisError.kind : AnalysisError → String
  | .unparseable .. => "Unparseable"
  | .noComponent .. | .severalComponents .. => "UnrecognizedShape"

/-- The wording of a failed analysis. -/
def AnalysisError.message : AnalysisError → String
  | .unparseable path cause => s!"Could not parse {path}: {cause.message}"
  | .noComponent path => s!"No exported function component returning markup found in {path}"
  | .severalComponents path count names =>
    let list := Text.join ", " names
    s!"Expected exactly one exported component in {path}, found {count} ({list})"

end Transplant
