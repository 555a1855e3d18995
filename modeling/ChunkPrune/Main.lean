import ChunkPrune.CommandLine.Program
import ChunkPrune.FileTree.Disk
import ChunkPrune.SourceText.Module
import Std.Time.DateTime
import Std.Time.Format

/-!
# The command line

The files that a command may look at are read into a tree, the command runs on the
tree, and what it changed there is written back.
-/

namespace ChunkPrune

namespace Command

def workspace : Command → Workspace
  | optimize args => args.workspace
  | merge args => args.workspace
  | restore args => args.workspace

/-- The paths outside the applications that a command may look at. -/
def named (root : Path) : Command → List Path
  | optimize args => args.reportFile root :: args.engineArgs.map Path.mk
  | merge args => args.output.toList
  | restore _ => []

/-- The files that the command may look at. -/
def survey (command : Command) : IO FileTree := do
  let here := Disk.locationOf ⟨(← IO.currentDir).toString⟩
  let start : FileTree :=
    { FileTree.empty.plant here .directory with workingDirectory := here }
  let marks := (ProjectRoot.wayUp (FileTree.pathOf here)).map (Path.join · ⟨".git"⟩)
  let tree ← (marks ++ command.workspace.root.toList).foldlM (Disk.add false) start
  match ProjectRoot.resolve tree command.workspace.root with
  | .error _ => return tree
  | .ok root =>
    let apps := (command.workspace.applications root).map (·.outputDir)
    let reports := apps.map (Path.join · ⟨command.workspace.usageFile⟩)
    let tree ← (command.named root ++ reports).foldlM (Disk.add false) tree
    apps.foldlM (Disk.add true) tree

end Command

/-- The surroundings of a run that starts at a moment. -/
def Surroundings.at (moment : Std.Time.Timestamp) : Surroundings :=
  let time := Std.Time.PlainDateTime.ofWallTime (.ofDuration moment.val)
  { parses := fun _ text => SourceText.isModule text
    mergeTime := time.format "uuuu-MM-dd'T'HH:mm:ss.SSSSSSSSS'+00:00'"
    reportTime := time.format "uuuu-MM-dd'T'HH:mm:ss.SSS'Z'" }

namespace ProgramOutcome

/-- The number of workers: chunks are pruned one after another. -/
def availableWorkers : Nat := 1

/-- Perform a command on the disk. -/
def ofCommand (command : Command) : IO ProgramOutcome := do
  let start ← IO.monoMsNow
  let tree ← command.survey
  let (after, result) := command.run (.at (← Std.Time.Timestamp.now)) tree
  (tree.changes after).forM Disk.make
  let effort : Effort := ⟨(← IO.monoMsNow) - start, command.workers availableWorkers⟩
  return .ofResult (← (← IO.getStdout).isTty) effort result

end ProgramOutcome

end ChunkPrune

open ChunkPrune in
def main (arguments : List String) : IO UInt32 := do
  let outcome ←
    match Command.read arguments with
    | .error e => pure (ProgramOutcome.ofUsageError e)
    | .ok command => ProgramOutcome.ofCommand command
  IO.print outcome.output
  IO.eprint outcome.errors
  return UInt32.ofNat outcome.code
