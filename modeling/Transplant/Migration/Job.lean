import Transplant.Config.Settings
import Transplant.Path.Pure

/-!
# Jobs

A `Job` is all that a migration has to be told.
-/

namespace Transplant

/-- All that a migration has to be told. -/
structure Job where
  sourceDir : Path
  targetDir : Path
  generateTests : Bool := false
  dryRun : Bool := false
  settings : Settings := {}
  maxWorkers : Int := 4
  /-- The directories of the source project that are searched; none means all of it. -/
  componentDirs : List String := []
  /-- The names of directories that are never entered. -/
  ignoreDirs : List String :=
    ["node_modules", ".git", "dist", "build", "coverage", "__tests__"]

/-- How many files are worked on at once. -/
def Job.window (j : Job) : Nat := max 1 j.maxWorkers.toNat

end Transplant
