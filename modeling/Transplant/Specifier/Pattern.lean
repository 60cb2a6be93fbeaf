import Transplant.Data.Table
import Transplant.Text.Basic

/-!
# Patterns

A pattern `source:target` says what becomes what. Patterns given one after the other make a table,
in which the last one for a source counts.
-/

namespace Transplant
namespace Pattern

/-- A pattern that cannot be read. -/
structure Malformed where
  pattern : String
deriving DecidableEq, Repr

/-- The wording of an unreadable pattern. -/
def Malformed.message (e : Malformed) : String := "Invalid pattern format: " ++ e.pattern

/-- The source and the target of a pattern; the source is not empty. -/
def split (pattern : String) : Except Malformed (String × String) :=
  match Text.cut? ':' pattern with
  | some (source, target) => if source = "" then .error ⟨pattern⟩ else .ok (source, target)
  | none => .error ⟨pattern⟩

/-- The table of some patterns, or the first that cannot be read. -/
def table (patterns : List String) : Except Malformed (Table String) :=
  (patterns.mapM split).map Table.ofPairs

end Pattern
end Transplant
