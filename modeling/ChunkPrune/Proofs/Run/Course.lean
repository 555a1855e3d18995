import ChunkPrune.Run
import ChunkPrune.Proofs.Prune.Schedule

/-!
# Courses of a run

The tasks of a run take their steps in any order, and any engine of a class may answer a call.
Each such order with its answers is a course of the run; the program takes one of them.
-/

namespace ChunkPrune

theorem writeFile_of_writeReport {tree after : FileTree} {path : Path} {text : String}
    (written : writeReport tree path text = .ok after) :
    tree.writeFile path text.toUTF8 = .ok after := by
  rw [writeReport] at written
  cases stored : tree.writeFile path text.toUTF8 with
  | error cause =>
      rw [stored] at written
      cases written
  | ok next =>
      rw [stored] at written
      cases written
      rfl

namespace OptimizeArgs

/-- What the chunks of a run have in common. -/
def settings (args : OptimizeArgs) (surroundings : Surroundings) (engine : Engine)
    (cutting : Cutting) : PruneSettings :=
  ⟨engine, surroundings.parses, !args.noValidate, cutting⟩

/-- The report of a run on its batch. -/
def reportOn (root : Path) (merged : MergedUsage) (reports : List AppReport)
    (chunks : List Chunk) (batch : BatchResult) (reportPath : Option Path) : RunReport where
  root := root
  apps := reports.map (·.app)
  libraries := merged.libraries
  chunksFound := chunks.length
  results := batch.results
  skipped := batch.skipped
  summary := .ofResults batch.results
  reportPath := reportPath

/-- The document of a run about its batch. -/
def documentOn (args : OptimizeArgs) (surroundings : Surroundings) (batch : BatchResult) :
    String :=
  Markdown.document surroundings.reportTime args.keptSample batch.results
    (.ofResults batch.results)

/-- The end of a run after its batch: a report, and a document with it if there is to be one. -/
def conclude (args : OptimizeArgs) (surroundings : Surroundings) (root : Path)
    (merged : MergedUsage) (reports : List AppReport) (chunks : List Chunk) (bench : Workbench)
    (batch : BatchResult) : Workbench × Except Failure RunReport :=
  if args.report && !batch.results.isEmpty then
    match writeReport bench.tree (args.reportFile root) (args.documentOn surroundings batch) with
    | .ok tree =>
      ({ bench with tree },
        .ok (reportOn root merged reports chunks batch (some (args.reportFile root))))
    | .error failure => (bench, .error failure)
  else (bench, .ok (reportOn root merged reports chunks batch none))

theorem conclude_of_no_document {args : OptimizeArgs} (noDocument : args.report = false)
    (surroundings : Surroundings) (root : Path) (merged : MergedUsage)
    (reports : List AppReport) (chunks : List Chunk) (bench : Workbench) (batch : BatchResult) :
    args.conclude surroundings root merged reports chunks bench batch =
      (bench, .ok (reportOn root merged reports chunks batch none)) := by
  rw [conclude, noDocument, Bool.false_and, if_neg Bool.false_ne_true]

/-- The end of a run calls no engine. -/
theorem conclude_calls (args : OptimizeArgs) (surroundings : Surroundings) (root : Path)
    (merged : MergedUsage) (reports : List AppReport) (chunks : List Chunk) (bench : Workbench)
    (batch : BatchResult) :
    (args.conclude surroundings root merged reports chunks bench batch).1.calls =
      bench.calls := by
  rw [conclude]
  split
  · split
    · rfl
    · rfl
  · rfl

end OptimizeArgs

/-- A course of a run over a tree, with the result of its batch, the workbench in the end and
what the run returns. -/
inductive OptimizeCourse (engines : Engine → Prop) (surroundings : Surroundings)
    (args : OptimizeArgs) (tree : FileTree) :
    BatchResult → Workbench × Except Failure RunReport → Prop
  | rootless {failure : Failure}
      (resolved : ProjectRoot.resolve tree args.workspace.root = .error failure) :
      OptimizeCourse engines surroundings args tree (.ofOutcomes []) (.ofTree tree, .error failure)
  | unloaded {root : Path} {failure : Failure}
      (resolved : ProjectRoot.resolve tree args.workspace.root = .ok root)
      (loaded : loadReports tree args.workspace.usageFile (args.workspace.applications root) =
        .error failure) :
      OptimizeCourse engines surroundings args tree (.ofOutcomes []) (.ofTree tree, .error failure)
  | batch {root : Path} {reports : List AppReport} {pool : Pool} (engine : Engine)
      (cutting : Cutting)
      (resolved : ProjectRoot.resolve tree args.workspace.root = .ok root)
      (loaded : loadReports tree args.workspace.usageFile (args.workspace.applications root) =
        .ok reports)
      (steps : Pool.Steps engines (.ofReports surroundings.mergeTime reports)
        (args.settings surroundings engine cutting)
        (.start (.ofTree tree) (Chunk.locate tree reports)) pool)
      (finished : pool.Finished) :
      OptimizeCourse engines surroundings args tree pool.result
        (args.conclude surroundings root (.ofReports surroundings.mergeTime reports) reports
          (Chunk.locate tree reports) pool.bench pool.result)

variable {surroundings : Surroundings} {engine : Engine} {args : OptimizeArgs} {tree : FileTree}

theorem runOptimize_of_loaded {root : Path} {reports : List AppReport}
    (resolved : ProjectRoot.resolve tree args.workspace.root = .ok root)
    (loaded : loadReports tree args.workspace.usageFile (args.workspace.applications root) =
      .ok reports) :
    runOptimize surroundings engine args tree =
      args.conclude surroundings root (.ofReports surroundings.mergeTime reports) reports
        (Chunk.locate tree reports)
        (pruneChunks (.ofReports surroundings.mergeTime reports)
          (args.settings surroundings engine .whole) (.ofTree tree)
          (Chunk.locate tree reports)).1
        (pruneChunks (.ofReports surroundings.mergeTime reports)
          (args.settings surroundings engine .whole) (.ofTree tree)
          (Chunk.locate tree reports)).2 := by
  simp only [runOptimize, resolved, loaded]
  rfl

/-- The program takes a course, with its engine for all calls. -/
theorem exists_course_runOptimize (surroundings : Surroundings) (engine : Engine)
    (args : OptimizeArgs) (tree : FileTree) :
    ∃ batch, OptimizeCourse engine.Only surroundings args tree batch
      (runOptimize surroundings engine args tree) := by
  cases resolved : ProjectRoot.resolve tree args.workspace.root with
  | error failure =>
      refine ⟨.ofOutcomes [], ?_⟩
      simp only [runOptimize, resolved]
      exact .rootless resolved
  | ok root =>
      cases loaded : loadReports tree args.workspace.usageFile
          (args.workspace.applications root) with
      | error failure =>
          refine ⟨.ofOutcomes [], ?_⟩
          simp only [runOptimize, resolved, loaded]
          exact .unloaded resolved loaded
      | ok reports =>
          have allowed : engine.Only (args.settings surroundings engine .whole).engine := rfl
          obtain ⟨pool, steps, finished, bench, result⟩ := Pool.exists_steps_pruneChunks allowed
            (.ofReports surroundings.mergeTime reports) (.ofTree tree)
            (Chunk.locate tree reports)
          refine ⟨pool.result, ?_⟩
          rw [runOptimize_of_loaded resolved loaded, ← bench, ← result]
          exact .batch engine .whole resolved loaded steps finished

/-- More engines allow more courses. -/
theorem OptimizeCourse.mono {engines more : Engine → Prop} {batch : BatchResult}
    {ended : Workbench × Except Failure RunReport}
    (course : OptimizeCourse engines surroundings args tree batch ended)
    (included : ∀ engine, engines engine → more engine) :
    OptimizeCourse more surroundings args tree batch ended := by
  cases course with
  | rootless resolved => exact .rootless resolved
  | unloaded resolved loaded => exact .unloaded resolved loaded
  | batch engine cutting resolved loaded steps finished =>
      exact .batch engine cutting resolved loaded (steps.mono included) finished

end ChunkPrune
