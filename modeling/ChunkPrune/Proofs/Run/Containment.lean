import ChunkPrune.Proofs.FileTree.Leads
import ChunkPrune.Proofs.Prune.Conservation
import ChunkPrune.Proofs.Prune.Single
import ChunkPrune.Proofs.Run.Course
import ChunkPrune.Proofs.Usage.Recorded

/-!
# Failures stay with their chunks

A run with a given root that writes no document fails only when no application has a usage
report that can be read. Then nothing was done. In all other cases each located chunk has one
outcome, whatever the engines answer and whatever happens to the files.
-/

namespace ChunkPrune

/-- The usage file of an application can be read, and what it says is a report. -/
def Application.HasReport (tree : FileTree) (usageFile : String) (app : Application) : Prop :=
  ∃ text report, tree.readText (app.outputDir.join ⟨usageFile⟩) = .ok text ∧
    UsageReport.read? text = some report

section Loading

variable {tree : FileTree} {usageFile : String} {app : Application} {apps : List Application}

theorem Application.hasReport_of_load {report : AppReport}
    (load : app.load? tree usageFile = some report) : app.HasReport tree usageFile := by
  obtain ⟨-, -, source, text, read, found⟩ := exists_text_of_load load
  rw [source] at read
  exact ⟨text, _, read, found⟩

theorem Application.load?_eq_none_iff :
    app.load? tree usageFile = none ↔ ¬ app.HasReport tree usageFile := by
  constructor
  · rintro missing ⟨text, report, read, found⟩
    simp [load?, FileTree.isFile_of_readText read, FileTree.readReport, read, found] at missing
  · intro missing
    cases load : app.load? tree usageFile with
    | none => rfl
    | some report => exact absurd (hasReport_of_load load) missing

theorem loadReports_eq_error {failure : Failure}
    (failed : loadReports tree usageFile apps = .error failure) :
    (∀ app ∈ apps, ¬ app.HasReport tree usageFile) ∧
      failure = .noUsageReports usageFile (apps.map (·.name)) := by
  rw [loadReports] at failed
  split at failed
  next missing =>
    cases failed
    exact ⟨fun app member => Application.load?_eq_none_iff.mp
      (List.filterMap_eq_nil_iff.mp missing app member), rfl⟩
  · cases failed

theorem exists_hasReport_of_loadReports {reports : List AppReport}
    (loaded : loadReports tree usageFile apps = .ok reports) :
    ∃ app ∈ apps, app.HasReport tree usageFile := by
  by_contra missing
  have none : apps.filterMap (Application.load? tree usageFile) = [] :=
    List.filterMap_eq_nil_iff.mpr fun app member =>
      Application.load?_eq_none_iff.mpr fun there => missing ⟨app, member, there⟩
  rw [loadReports, none] at loaded
  cases loaded

end Loading

/-- A run over applications has failed before it touched anything, since none of them has a
report, or it tells what became of each located chunk. -/
structure Contained (tree : FileTree) (usageFile : String) (apps : List Application)
    (bench : Workbench) (outcome : Except Failure RunReport) : Prop where
  fails_iff : (∃ failure, outcome = .error failure) ↔
    ∀ app ∈ apps, ¬ app.HasReport tree usageFile
  untouched : ∀ failure, outcome = .error failure →
    failure = .noUsageReports usageFile (apps.map (·.name)) ∧ bench.calls = [] ∧
      bench.tree = tree
  settles : ∀ report, outcome = .ok report →
    ∃ reports, loadReports tree usageFile apps = .ok reports ∧
      report.chunksFound = (Chunk.locate tree reports).length ∧
      report.results.length + report.skipped.length = report.chunksFound ∧
      BatchResult.Settles (Chunk.locate tree reports) ⟨report.results, report.skipped⟩

section Explicit

variable {engines : Engine → Prop} {surroundings : Surroundings} {args : OptimizeArgs}
  {tree : FileTree} {root : Path}

theorem OptimizeCourse.contained {batch : BatchResult}
    {ended : Workbench × Except Failure RunReport}
    (course : OptimizeCourse engines surroundings args tree batch ended)
    (explicit : args.workspace.root = some root) (noDocument : args.report = false) :
    Contained tree args.workspace.usageFile
      (args.workspace.applications ((tree.canonical? root).getD root)) ended.1 ended.2 := by
  have given : ProjectRoot.resolve tree args.workspace.root =
      .ok ((tree.canonical? root).getD root) := by rw [explicit, ProjectRoot.resolve]
  cases course with
  | rootless resolved =>
      rw [given] at resolved
      cases resolved
  | unloaded resolved loaded =>
      rw [given] at resolved
      cases resolved
      obtain ⟨missing, rfl⟩ := loadReports_eq_error loaded
      refine ⟨⟨fun _ => missing, fun _ => ⟨_, rfl⟩⟩, ?_, fun _ returned => (nomatch returned)⟩
      rintro failure ⟨⟩
      exact ⟨rfl, rfl, rfl⟩
  | @batch root reports pool engine cutting resolved loaded steps finished =>
      rw [given] at resolved
      cases resolved
      have settles := steps.settles finished
      rw [OptimizeArgs.conclude_of_no_document noDocument]
      obtain ⟨app, member, there⟩ := exists_hasReport_of_loadReports loaded
      refine ⟨⟨fun ⟨_, failed⟩ => (nomatch failed), fun missing => ?_⟩,
        fun _ failed => (nomatch failed), ?_⟩
      · exact absurd there (missing app member)
      · rintro report ⟨⟩
        exact ⟨reports, loaded, rfl, settles.length, settles⟩

/-- A run with a given root and without a document fails only when no application has a usage
report. Then the failure names all of them, and nothing was done. Otherwise each located chunk
has one outcome, in the order of the chunks. So it is on every course with any engines, and with
every engine of the program, and every batch can be brought to its end. -/
theorem optimize_contained (tree : FileTree) (surroundings : Surroundings) (args : OptimizeArgs)
    (explicit : args.workspace.root = some root) (noDocument : args.report = false) :
    (∀ batch bench outcome,
      OptimizeCourse Engine.Any surroundings args tree batch (bench, outcome) →
      Contained tree args.workspace.usageFile
        (args.workspace.applications ((tree.canonical? root).getD root)) bench outcome) ∧
    (∀ engine, Contained tree args.workspace.usageFile
        (args.workspace.applications ((tree.canonical? root).getD root))
        (runOptimize surroundings engine args tree).1
        (runOptimize surroundings engine args tree).2) ∧
    ∀ merged settings pool, ∃ last, Pool.Steps Engine.Any merged settings pool last ∧
      last.Finished := by
  refine ⟨?_, ?_, fun merged settings pool => ?_⟩
  · intro batch bench outcome course
    exact course.contained explicit noDocument
  · intro engine
    obtain ⟨batch, course⟩ := exists_course_runOptimize surroundings engine args tree
    exact course.contained explicit noDocument
  · have allowed : Engine.Any settings.engine := trivial
    exact Pool.exists_finished allowed merged settings pool

end Explicit

/-! ## Runs over a tree with a single chunk -/

/-- A run over some applications, from the top of the tree and without a document. -/
def loneArgs (apps : List AppSpec) : OptimizeArgs where
  workspace := ⟨some ⟨"/"⟩, apps, "u"⟩
  engine := "engine"
  engineArgs := []
  report := false
  reportPath := none
  keptSample := false
  noValidate := true
  jobs := none

def loneSurroundings : Surroundings := ⟨fun _ _ => true, "", ""⟩

/-- With the single chunk, the program gives one outcome. -/
theorem optimize_contained_loneTree :
    (loneArgs [loneSpec]).workspace.root = some ⟨"/"⟩ ∧ (loneArgs [loneSpec]).report = false ∧
      ∃ bench report, runOptimize loneSurroundings steadySettings.engine (loneArgs [loneSpec])
          (loneTree "a".toUTF8) = (bench, .ok report) ∧
        report.chunksFound = 1 ∧ report.results.length + report.skipped.length = 1 := by
  refine ⟨rfl, rfl, ?_⟩
  have linkFree := linkFree_loneTree "a".toUTF8
  have holds := holds_loneTree "a".toUTF8
  have loaded : loadReports (loneTree "a".toUTF8) "u" [loneApp 0] =
      .ok [loneReport loneSite (dottedDir 0)] := loadReports_loneTree (by decide)
  have enters : (loneTree "a".toUTF8).Enters (dottedDir 0) := enters_dottedDir rfl (by decide)
  have located := locate_loneReport linkFree holds (by decide) enters (location_dottedDir 0)
  have contained := (optimize_contained (loneTree "a".toUTF8) loneSurroundings
    (loneArgs [loneSpec]) rfl rfl).2.1 steadySettings.engine
  have apps : ∀ root, (loneArgs [loneSpec]).workspace.applications root = [loneApp 0] :=
    fun root => congrArg (fun app => [app]) (application_loneSpec root)
  rw [apps] at contained
  cases returned : runOptimize loneSurroundings steadySettings.engine (loneArgs [loneSpec])
      (loneTree "a".toUTF8) with
  | mk bench outcome =>
      rw [returned] at contained
      cases outcome with
      | error failure =>
          obtain ⟨app, member, there⟩ := exists_hasReport_of_loadReports loaded
          exact absurd there (contained.fails_iff.mp ⟨failure, rfl⟩ app member)
      | ok report =>
          obtain ⟨reports, same, found, count, -⟩ := contained.settles report rfl
          obtain rfl := Except.ok.inj (loaded.symm.trans same)
          rw [located] at found
          exact ⟨bench, report, rfl, found, count.trans found⟩

end ChunkPrune
