import ChunkPrune.CommandLine.Command
import ChunkPrune.ProjectRoot
import ChunkPrune.Prune.Batch
import ChunkPrune.Report.Markdown
import ChunkPrune.Restore

/-!
# Runs

A run finds the applications, loads and merges their reports, and then prunes chunks,
prints the merged usage, or restores chunks. It fails as a whole only before the first
chunk is touched, or when the report document cannot be written.
-/

namespace ChunkPrune

structure RunReport where
  root : Path
  apps : List String
  libraries : List String
  chunksFound : Nat
  results : List PruneResult
  skipped : List Skip
  summary : Summary
  reportPath : Option Path

/-- What a run is given by its surroundings: what counts as a program, and the time as
it stands in merged usage and in a report document. -/
structure Surroundings where
  parses : Path → String → Bool
  mergeTime : String
  reportTime : String

def writeReport (tree : FileTree) (path : Path) (text : String) : Except Failure FileTree :=
  (tree.writeFile path text.toUTF8).mapError (.createReport path)

/-- Prune the chunks of all applications with a report. -/
def runOptimize (surroundings : Surroundings) (engine : Engine) (args : OptimizeArgs)
    (tree : FileTree) : Workbench × Except Failure RunReport :=
  match ProjectRoot.resolve tree args.workspace.root with
  | .error failure => (.ofTree tree, .error failure)
  | .ok root =>
    match loadReports tree args.workspace.usageFile (args.workspace.applications root) with
    | .error failure => (.ofTree tree, .error failure)
    | .ok reports =>
      let merged := MergedUsage.ofReports surroundings.mergeTime reports
      let chunks := Chunk.locate tree reports
      let settings : PruneSettings :=
        ⟨engine, surroundings.parses, !args.noValidate, .whole⟩
      let (bench, batch) := pruneChunks merged settings (.ofTree tree) chunks
      let summary := Summary.ofResults batch.results
      let result (reportPath : Option Path) : RunReport :=
        { root
          apps := reports.map (·.app)
          libraries := merged.libraries
          chunksFound := chunks.length
          results := batch.results
          skipped := batch.skipped
          summary
          reportPath }
      if args.report && !batch.results.isEmpty then
        let path := args.reportFile root
        let text := Markdown.document surroundings.reportTime args.keptSample batch.results summary
        match writeReport bench.tree path text with
        | .ok tree => ({ bench with tree }, .ok (result (some path)))
        | .error failure => (bench, .error failure)
      else (bench, .ok (result none))

/-- The merged usage of all applications; it is written to a file if one is given. -/
def runMerge (surroundings : Surroundings) (args : MergeArgs) (tree : FileTree) :
    FileTree × Except Failure MergedUsage :=
  match ProjectRoot.resolve tree args.workspace.root with
  | .error failure => (tree, .error failure)
  | .ok root =>
    match loadReports tree args.workspace.usageFile (args.workspace.applications root) with
    | .error failure => (tree, .error failure)
    | .ok reports =>
      let merged := MergedUsage.ofReports surroundings.mergeTime reports
      match args.output with
      | none => (tree, .ok merged)
      | some output =>
        match tree.writeFile output merged.toJson.pretty.toUTF8 with
        | .ok tree => (tree, .ok merged)
        | .error e => (tree, .error (.unwritable output e))

def runRestore (args : RestoreArgs) (tree : FileTree) :
    FileTree × Except Failure (List Path) :=
  match ProjectRoot.resolve tree args.workspace.root with
  | .error failure => (tree, .error failure)
  | .ok root => restoreAll tree (args.workspace.applications root)

end ChunkPrune
