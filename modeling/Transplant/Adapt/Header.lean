import Transplant.Plan.Batch
import Transplant.Source.Basic

/-!
# The line that says where a file comes from
-/

namespace Transplant
namespace Header

/-- The line in front of a migrated file. -/
def line (n : Naming) (p : Plan) : String :=
  s!"// Migrated from {p.descriptor.sourcePath} ({n.suffix})\n"

/-- The edit that puts the line in front, unless it is there or not wanted. -/
def edits (n : Naming) (p : Plan) (bytes : Bytes) : List Edit :=
  if !n.header || (Utf8.encode (line n p)).isPrefixOf bytes then [] else [⟨0, 0, line n p⟩]

end Header
end Transplant
