import Transplant.CommandLine.Program
import Transplant.Files.Changes

/-!
# The command

The files that a command line speaks of are read, the program is run on them, and what it wrote goes
back. All decisions are made by `Program.run`.
-/

namespace Transplant
namespace Terminal

/-- The spelling of a place, seen from the top. -/
def spelled (place : List String) : String := "/" ++ Text.join "/" place

/-- What is at a path: a file with its content, or a directory with all that is below it. Anything
else is left out. -/
partial def readTree (path : String) : IO (Option FileTree) := do
  try
    let real ← IO.FS.realPath path
    match (← real.metadata).type with
    | .dir =>
      let children ← (← real.readDir).toList.mapM fun e => do
        return (← readTree e.path.toString).map ((e.fileName, ·))
      return some (.directory (children.filterMap id))
    | .file => return some (.file (← IO.FS.readBinFile real).toList)
    | _ => return none
  catch _ => return none

/-- Whether a path leads to a directory. -/
def leadsToDirectory (path : String) : IO Bool := do
  try return (← (← IO.FS.realPath path).metadata).type == .dir
  catch _ => return false

/-- The disk with what is at a path, and with the directories on the way to it. -/
def withPath (d : Disk) (p : Path) : IO Disk := do
  let mut d := d
  let mut place := if p.root = "" then d.here else []
  for name in p.parts do
    place := if name = ".." then place.dropLast else place ++ [name]
    if (d.top.get? place).isNone then
      if ← leadsToDirectory (spelled place) then d := d.put place .empty
  match ← readTree (spelled place) with
  | some tree => return d.put place tree
  | none => return d

/-- The directories on the way to a place, without anything else. -/
def wayTo (place : List String) : FileTree := FileTree.empty.put place .empty

/-- All that a command line speaks of. -/
def readDisk (arguments : List String) : IO Disk := do
  let here := (Path.ofString (← IO.currentDir).toString).parts
  let d : Disk := ⟨wayTo here, here⟩
  match CommandLine.Arguments.ofList arguments with
  | .error _ => return d
  | .ok a =>
    let config := a.requests.config.getD (.value (Path.ofString ConfigFile.defaultName))
    let d ← withPath d (CommandLine.directory config)
    let d ← withPath d (CommandLine.directory a.sourceDir)
    withPath d (CommandLine.directory a.targetDir)

/-- Writes a file, making the directories above it. It takes its place when it is complete. -/
def writeFile (place : List String) (content : Bytes) : IO Unit := do
  let temporary := spelled (place.dropLast ++ ["." ++ place.getLast?.getD "" ++ ".tmp"])
  IO.FS.createDirAll (spelled place.dropLast)
  IO.FS.writeBinFile temporary ⟨content.toArray⟩
  IO.FS.rename temporary (spelled place)

/-- Writes the log, to the terminal and to the end of a file. -/
def writeLog (log : List LogLine) : IO Unit := do
  let text := Text.concat (log.map fun l => s!"{l.level.label} - {l.message}\n")
  IO.eprint text
  unless text = "" do
    IO.FS.withFile "migration.log" .append fun file => file.putStr text

end Terminal
end Transplant

open Transplant in
/-- Runs the program. -/
def main (arguments : List String) : IO UInt32 := do
  let before ← Terminal.readDisk arguments
  match Program.run arguments before with
  | .error crash =>
    IO.eprintln s!"{Program.name}: {crash.message}"
    return 1
  | .ok ending =>
    for (place, content) in before.top.written ending.files.top do
      Terminal.writeFile place content
    Terminal.writeLog ending.log
    IO.print ending.printed
    if let some complaint := ending.complaint then IO.eprintln complaint
    return ending.exit.toUInt32
