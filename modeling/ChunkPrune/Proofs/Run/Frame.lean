import ChunkPrune.Proofs.Prune.Frame
import ChunkPrune.Proofs.Run.Containment

/-!
# What a run leaves alone

A run over a tree without links changes the chunks that it has results for, their backups and
its document, and nothing else. The chunks and the backups lie within the output directories of
applications with a usage report. Applications without one make no difference.
-/

namespace ChunkPrune

/-! ## Writing a document -/

namespace OptimizeArgs

variable {args : OptimizeArgs} {surroundings : Surroundings} {root : Path} {merged : MergedUsage}
  {reports : List AppReport} {chunks : List Chunk} {bench : Workbench} {batch : BatchResult}

/-- After its batch a run changes the place of its document at most. -/
theorem conclude_entry? {tree : FileTree} (linkFree : bench.tree.LinkFree)
    (workingDirectory : bench.tree.workingDirectory = tree.workingDirectory)
    {location : Location}
    (outside : ∀ report path,
      (args.conclude surroundings root merged reports chunks bench batch).2 = .ok report →
      report.reportPath = some path → location ≠ tree.destination path) :
    FileTree.entry? (args.conclude surroundings root merged reports chunks bench batch).1.tree
        location =
      bench.tree.entry? location := by
  rw [conclude] at outside ⊢
  split at outside
  next document =>
    rw [if_pos document]
    cases written : writeReport bench.tree (args.reportFile root)
        (args.documentOn surroundings batch) with
    | error failure => rfl
    | ok next =>
        simp only [written] at outside ⊢
        have elsewhere := outside _ _ rfl rfl
        rw [FileTree.destination, ← workingDirectory] at elsewhere
        rw [FileTree.eq_put_of_writeFile linkFree (writeFile_of_writeReport written)]
        exact FileTree.entry?_put_of_ne (fun same => elsewhere same.symm) _
  next noDocument => rw [if_neg noDocument]

/-- What a run reports are the results of its batch. -/
theorem results_of_conclude {report : RunReport}
    (returned : (args.conclude surroundings root merged reports chunks bench batch).2 =
      .ok report) : report.results = batch.results ∧ report.skipped = batch.skipped := by
  rw [conclude] at returned
  split at returned
  · split at returned
    · cases returned
      exact ⟨rfl, rfl⟩
    · cases returned
  · cases returned
    exact ⟨rfl, rfl⟩

end OptimizeArgs

/-! ## Where chunks lie -/

section Within

variable {tree : FileTree} {usageFile : String} {apps : List Application}
  {reports : List AppReport} {report : AppReport}

theorem exists_app_of_loadReports (loaded : loadReports tree usageFile apps = .ok reports)
    (member : report ∈ reports) :
    ∃ app ∈ apps, app.HasReport tree usageFile ∧ report.outputDir = app.outputDir := by
  obtain ⟨app, appMember, load⟩ := exists_load_of_loadReports loaded member
  exact ⟨app, appMember, Application.hasReport_of_load load,
    (Application.exists_text_of_load load).2.1⟩

theorem Site.location_path (site : Site) : site.path.location = site.location :=
  Path.location_pathOf fun _ => Site.isName_of_mem_location

theorem Site.location_backupPath (site : Site) :
    (Chunk.backupPath site.path).location = site.backup := by
  rw [site.backupPath_path]
  refine Path.location_pathOf fun name member => ?_
  rcases List.mem_append.mp member with member | member
  · exact site.directoryNames name member
  · rw [List.mem_singleton.mp member]
    exact site.isName_backupName

/-- A located chunk and its backup lie within the output directory of an application that has a
usage report. -/
theorem within_of_mem_locate (absolute : ∀ app ∈ apps, app.outputDir.isAbsolute = true)
    (loaded : loadReports tree usageFile apps = .ok reports) {chunk : Chunk}
    (member : chunk ∈ Chunk.locate tree reports) :
    ∃ app ∈ apps, app.HasReport tree usageFile ∧ Within app.outputDir chunk.path.location ∧
      Within app.outputDir (Chunk.backupPath chunk.path).location := by
  obtain ⟨report, reportMember, record, source⟩ := Chunk.from_of_mem_locate member
  obtain ⟨app, appMember, there, same⟩ := exists_app_of_loadReports loaded reportMember
  obtain ⟨site, place, names, split⟩ := source.exists_site (same ▸ absolute app appMember)
  rw [same] at split
  refine ⟨app, appMember, there, ⟨names ++ [site.name], by simp, ?_⟩,
    ⟨names ++ [site.backupName], by simp, ?_⟩⟩
  · rw [place, site.location_path, Site.location, ← split, List.append_assoc]
  · rw [place, site.location_backupPath, Site.backup, ← split, List.append_assoc]

end Within

/-! ## The frame of a run -/

/-- A run has changed nothing but the chunks that its batch has results for, the backups of
these and the document; and these chunks lie where they belong. -/
structure Framed (args : OptimizeArgs) (tree : FileTree) (batch : BatchResult)
    (bench : Workbench) (outcome : Except Failure RunReport) : Prop where
  unchanged : ∀ location,
    (∀ result ∈ batch.results, location ≠ result.path.location ∧
      location ≠ (Chunk.backupPath result.path).location) →
    (∀ report path, outcome = .ok report → report.reportPath = some path →
      location ≠ tree.destination path) →
    bench.tree.entry? location = tree.entry? location
  within : ∀ result ∈ batch.results, ∃ root,
    ProjectRoot.resolve tree args.workspace.root = .ok root ∧
      ∃ app ∈ args.workspace.applications root, app.HasReport tree args.workspace.usageFile ∧
        Within app.outputDir result.path.location ∧
        Within app.outputDir (Chunk.backupPath result.path).location
  reported : ∀ report, outcome = .ok report →
    report.results = batch.results ∧ report.skipped = batch.skipped

section Frame

variable {engines : Engine → Prop} {surroundings : Surroundings} {args : OptimizeArgs}
  {tree : FileTree}

theorem framed_error (args : OptimizeArgs) (tree : FileTree) (failure : Failure) :
    Framed args tree (.ofOutcomes []) (.ofTree tree) (.error failure) :=
  ⟨fun _ _ _ => rfl, fun _ absurdity => absurd absurdity List.not_mem_nil,
    fun _ returned => (nomatch returned)⟩

theorem OptimizeCourse.framed {batch : BatchResult}
    {ended : Workbench × Except Failure RunReport}
    (course : OptimizeCourse engines surroundings args tree batch ended)
    (linkFree : tree.LinkFree)
    (absolute : ∀ root, ProjectRoot.resolve tree args.workspace.root = .ok root →
      ∀ app ∈ args.workspace.applications root, app.outputDir.isAbsolute = true) :
    Framed args tree batch ended.1 ended.2 := by
  cases course with
  | rootless resolved => exact framed_error args tree _
  | unloaded resolved loaded => exact framed_error args tree _
  | @batch root reports pool engine cutting resolved loaded steps finished =>
      have appsAbsolute := absolute root resolved
      have reportsAbsolute : ∀ report ∈ reports, report.outputDir.isAbsolute = true := by
        intro report member
        obtain ⟨app, appMember, -, same⟩ := exists_app_of_loadReports loaded member
        exact same ▸ appsAbsolute app appMember
      have there : ∀ chunk ∈ Chunk.locate tree reports, tree.HasSite chunk.path :=
        fun chunk member => Chunk.hasSite_of_mem_locate linkFree reportsAbsolute member
      obtain ⟨plan, -, invariant⟩ :=
        steps.exists_invariant linkFree (Pool.exists_site_of_hasSite there)
      refine ⟨fun location outside elsewhere => ?_, fun result member => ?_,
        fun report => OptimizeArgs.results_of_conclude⟩
      · rw [OptimizeArgs.conclude_entry? invariant.linkFree invariant.evolves.workingDirectory
          elsewhere]
        refine steps.entry?_eq linkFree there finished fun result member site path place => ?_
        obtain ⟨notChunk, notBackup⟩ := outside result member
        rw [path, site.location_path] at notChunk
        rw [path, site.location_backupPath] at notBackup
        exact place.elim notChunk notBackup
      · obtain ⟨chunk, chunkMember, -, -, -, path⟩ :=
          (steps.settles finished).exists_chunk member
        obtain ⟨app, appMember, hasReport, within⟩ :=
          within_of_mem_locate appsAbsolute loaded chunkMember
        exact ⟨root, resolved, app, appMember, hasReport, path ▸ within⟩

end Frame

/-! ## Applications without a report -/

/-- The applications as they are given, or the usual ones where none are given. -/
def Workspace.specs (workspace : Workspace) : List AppSpec :=
  match workspace.apps with
  | [] => AppSpec.defaults
  | apps => apps

theorem Workspace.applications_eq (workspace : Workspace) (root : Path) :
    workspace.applications root = workspace.specs.map (AppSpec.application root) := by
  rw [applications, specs]
  cases workspace.apps with
  | nil => rfl
  | cons spec rest => rfl

/-- The same run over other applications. -/
def OptimizeArgs.over (args : OptimizeArgs) (apps : List AppSpec) : OptimizeArgs :=
  { args with workspace := { args.workspace with apps } }

theorem OptimizeArgs.applications_over (args : OptimizeArgs) {apps : List AppSpec}
    (nonempty : apps ≠ []) (root : Path) :
    (args.over apps).workspace.applications root = apps.map (AppSpec.application root) := by
  rw [Workspace.applications_eq, Workspace.specs]
  split
  next empty => exact absurd empty nonempty
  · rfl

section Without

variable {engines : Engine → Prop} {surroundings : Surroundings} {args : OptimizeArgs}
  {tree : FileTree} {usageFile : String}

theorem loadReports_of_hasReport {apps : List Application}
    (there : ∃ app ∈ apps, app.HasReport tree usageFile) :
    loadReports tree usageFile apps = .ok (apps.filterMap (Application.load? tree usageFile)) := by
  cases loaded : loadReports tree usageFile apps with
  | error failure =>
      obtain ⟨app, member, hasReport⟩ := there
      exact absurd hasReport ((loadReports_eq_error loaded).1 app member)
  | ok reports => rw [filterMap_load?_of_loadReports loaded]

/-- An application without a report can be left out when another one has a report. -/
theorem loadReports_without {left right : List Application} {app : Application}
    (missing : ¬ app.HasReport tree usageFile)
    (there : ∃ other ∈ left ++ app :: right, other.HasReport tree usageFile) :
    (∃ other ∈ left ++ right, other.HasReport tree usageFile) ∧
      loadReports tree usageFile (left ++ app :: right) =
        loadReports tree usageFile (left ++ right) := by
  have rest : ∃ other ∈ left ++ right, other.HasReport tree usageFile := by
    obtain ⟨other, member, hasReport⟩ := there
    refine ⟨other, ?_, hasReport⟩
    rw [List.mem_append, List.mem_cons] at member
    rcases member with member | rfl | member
    · exact List.mem_append_left _ member
    · exact absurd hasReport missing
    · exact List.mem_append_right _ member
  refine ⟨rest, ?_⟩
  rw [loadReports_of_hasReport there, loadReports_of_hasReport rest, List.filterMap_append,
    List.filterMap_append, List.filterMap_cons_none (Application.load?_eq_none_iff.mpr missing)]

/-- Over applications with the same reports a run takes the same courses. -/
theorem OptimizeCourse.over {apps : List AppSpec}
    (same : ∀ root, ProjectRoot.resolve tree args.workspace.root = .ok root →
      loadReports tree args.workspace.usageFile ((args.over apps).workspace.applications root) =
        loadReports tree args.workspace.usageFile (args.workspace.applications root))
    {batch : BatchResult} {ended : Workbench × Except Failure RunReport}
    (course : OptimizeCourse engines surroundings args tree batch ended) :
    OptimizeCourse engines surroundings (args.over apps) tree batch ended := by
  cases course with
  | rootless resolved => exact .rootless resolved
  | unloaded resolved loaded => exact .unloaded resolved ((same _ resolved).trans loaded)
  | batch engine cutting resolved loaded steps finished =>
      exact .batch engine cutting resolved ((same _ resolved).trans loaded) steps finished

theorem runOptimize_over {apps : List AppSpec} {root : Path} {reports : List AppReport}
    (resolved : ProjectRoot.resolve tree args.workspace.root = .ok root)
    (loaded : loadReports tree args.workspace.usageFile (args.workspace.applications root) =
      .ok reports)
    (same : loadReports tree args.workspace.usageFile
        ((args.over apps).workspace.applications root) =
      loadReports tree args.workspace.usageFile (args.workspace.applications root))
    (engine : Engine) :
    runOptimize surroundings engine args tree =
      runOptimize surroundings engine (args.over apps) tree := by
  have resolvedOver : ProjectRoot.resolve tree (args.over apps).workspace.root = .ok root :=
    resolved
  rw [runOptimize_of_loaded resolved loaded,
    runOptimize_of_loaded resolvedOver (same.trans loaded)]
  rfl

end Without

/-- In a tree without links, for applications with absolute output directories: on every course a
run changes the chunks that it has results for, their backups and its document only, and such
chunks and backups lie strictly within the output directory of an application with a usage
report. The program takes one of these courses. When some application has a report, one without
a report makes no difference to the courses, nor to what the program does. -/
theorem optimize_framed (tree : FileTree) (surroundings : Surroundings) (args : OptimizeArgs)
    (linkFree : tree.LinkFree)
    (absolute : ∀ root, ProjectRoot.resolve tree args.workspace.root = .ok root →
      ∀ app ∈ args.workspace.applications root, app.outputDir.isAbsolute = true) :
    (∀ batch bench outcome,
      OptimizeCourse Engine.Any surroundings args tree batch (bench, outcome) →
      Framed args tree batch bench outcome) ∧
    (∀ engine, ∃ batch, OptimizeCourse Engine.Any surroundings args tree batch
      (runOptimize surroundings engine args tree)) ∧
    ∀ root left spec right, ProjectRoot.resolve tree args.workspace.root = .ok root →
      args.workspace.specs = left ++ spec :: right →
      ¬ (spec.application root).HasReport tree args.workspace.usageFile →
      (∃ app ∈ args.workspace.applications root, app.HasReport tree args.workspace.usageFile) →
      (∀ engines batch ended, OptimizeCourse engines surroundings args tree batch ended ↔
        OptimizeCourse engines surroundings (args.over (left ++ right)) tree batch ended) ∧
      ∀ engine, runOptimize surroundings engine args tree =
        runOptimize surroundings engine (args.over (left ++ right)) tree := by
  refine ⟨fun batch bench outcome course => course.framed linkFree absolute, fun engine => ?_, ?_⟩
  · obtain ⟨batch, course⟩ := exists_course_runOptimize surroundings engine args tree
    exact ⟨batch, course.mono fun _ _ => trivial⟩
  · intro root left spec right resolved split missing there
    have whole : args.workspace.applications root = left.map (AppSpec.application root) ++
        spec.application root :: right.map (AppSpec.application root) := by
      rw [args.workspace.applications_eq, split, List.map_append, List.map_cons]
    have loaded := loadReports_of_hasReport there
    rw [whole] at there
    obtain ⟨⟨other, member, -⟩, without⟩ := loadReports_without missing there
    rw [← List.map_append] at member without
    have nonempty : left ++ right ≠ [] := by
      intro empty
      rw [empty] at member
      exact List.not_mem_nil member
    have same : loadReports tree args.workspace.usageFile
          ((args.over (left ++ right)).workspace.applications root) =
        loadReports tree args.workspace.usageFile (args.workspace.applications root) := by
      rw [args.applications_over nonempty, whole, without]
    have sameRoot : ∀ other, ProjectRoot.resolve tree args.workspace.root = .ok other →
        other = root := fun other again => Except.ok.inj (again.symm.trans resolved)
    refine ⟨fun engines batch ended => ⟨fun course => ?_, fun course => ?_⟩,
      runOptimize_over resolved loaded same⟩
    · exact course.over fun other again => sameRoot other again ▸ same
    · have back : (args.over (left ++ right)).over args.workspace.apps = args := rfl
      rw [← back]
      exact course.over fun other again => sameRoot other again ▸ same.symm

/-! ## Runs over a tree with a single chunk -/

theorem locate_dottedDir (content : ByteArray) :
    Chunk.locate (loneTree content) [loneReport loneSite (dottedDir 0)] = [loneChunk loneSite] :=
  locate_loneReport (linkFree_loneTree content) (holds_loneTree content) (by decide)
    (enters_dottedDir rfl (by decide)) (location_dottedDir 0)

theorem loadReports_loneArgs (content : ByteArray) (root : Path) :
    loadReports (loneTree content) "u" ((loneArgs [loneSpec]).workspace.applications root) =
      .ok [loneReport loneSite (dottedDir 0)] := by
  have apps : (loneArgs [loneSpec]).workspace.applications root = [loneApp 0] :=
    congrArg (fun app => [app]) (application_loneSpec root)
  rw [apps]
  exact loadReports_loneTree (by decide)

/-- A finished batch over the chunks of the loaded reports is the course of a run. -/
theorem exists_course_of_steps {tree : FileTree} {apps : List AppSpec} {reports : List AppReport}
    (loaded : ∀ root, loadReports tree "u" ((loneArgs apps).workspace.applications root) =
      .ok reports) {pool : Pool}
    (steps : Pool.Steps steadySettings.engine.Only (.ofReports "" reports) steadySettings
      (.start (.ofTree tree) (Chunk.locate tree reports)) pool) (finished : pool.Finished) :
    ∃ report, OptimizeCourse Engine.Any loneSurroundings (loneArgs apps) tree pool.result
        (pool.bench, .ok report) ∧
      report.reportPath = none ∧ report.results = pool.result.results := by
  obtain ⟨root, resolved⟩ : ∃ root, ProjectRoot.resolve tree (loneArgs apps).workspace.root =
      .ok root := ⟨_, rfl⟩
  have anySteps := steps.mono fun engine _ => (trivial : Engine.Any engine)
  have course : OptimizeCourse Engine.Any loneSurroundings (loneArgs apps) tree pool.result _ :=
    .batch steadySettings.engine .whole resolved (loaded root) anySteps finished
  rw [OptimizeArgs.conclude_of_no_document rfl] at course
  exact ⟨_, course, rfl, rfl⟩

/-- The course of a batch over the single chunk, which gives it new source. -/
theorem exists_course_loneArgs (text : String) {apps : List AppSpec}
    (loaded : ∀ root, loadReports (loneTree text.toUTF8) "u"
      ((loneArgs apps).workspace.applications root) = .ok [loneReport loneSite (dottedDir 0)]) :
    ∃ pool report,
      Pool.Steps steadySettings.engine.Only (.ofReports "" [loneReport loneSite (dottedDir 0)])
        steadySettings (.start (.ofTree (loneTree text.toUTF8)) [loneChunk loneSite]) pool ∧
      pool.Finished ∧
      OptimizeCourse Engine.Any loneSurroundings (loneArgs apps) (loneTree text.toUTF8)
        pool.result (pool.bench, .ok report) ∧
      report.reportPath = none ∧
      (loneTree text.toUTF8).Evolves loneSite.Places pool.bench.tree ∧
      pool.bench.tree.Holds loneSite ⟨"x".toUTF8, some (.file text.toUTF8)⟩ := by
  have place : (loneChunk loneSite).path = loneSite.path := rfl
  have read : (⟨text.toUTF8, none⟩ : Slot).chunk = text.toUTF8 := rfl
  obtain ⟨pool, steps, finished, evolves, ended⟩ := Pool.exists_steps_single
    (.ofReports "" [loneReport loneSite (dottedDir 0)]) steadySettings
    (linkFree_loneTree text.toUTF8) (holds_loneTree text.toUTF8) place
  rw [Slot.prune_loneChunk (keepFlags_loneReport loneSite (dottedDir 0)) read (by decide)
    (Or.inl rfl)] at ended
  have located := steps
  rw [← locate_dottedDir text.toUTF8] at located
  obtain ⟨report, course, noDocument, -⟩ := exists_course_of_steps loaded located finished
  exact ⟨pool, report, steps, finished, course, noDocument, evolves, ended⟩

/-- An application in a directory that is not there. -/
def absentSpec : AppSpec := ⟨"other", some ⟨"/none"⟩⟩

theorem application_absentSpec (root : Path) : absentSpec.application root = ⟨"other", ⟨"/none"⟩⟩ :=
  rfl

theorem not_hasReport_absentSpec (content : ByteArray) (root : Path) :
    ¬ (absentSpec.application root).HasReport (loneTree content) "u" := by
  rintro ⟨text, report, read, -⟩
  have linkFree := linkFree_loneTree content
  obtain ⟨location, found⟩ := FileTree.lookup_of_readText read
  obtain ⟨directory, name, -, -, -, there⟩ := FileTree.exists_leads linkFree found
  have absolute : Path.isAbsolute (Path.join ⟨"/none"⟩ ⟨"u"⟩) = true := by decide
  have place : Path.location (Path.join ⟨"/none"⟩ ⟨"u"⟩) = ["none", "u"] := by decide
  rw [FileTree.location_of_lookup (linkFree.not_crosses _) found, application_absentSpec,
    FileTree.destination_of_isAbsolute _ absolute, place] at there
  cases there

/-- The arguments of a run over the application of the single chunk and an absent one. -/
def pairArgs : OptimizeArgs := loneArgs [loneSpec, absentSpec]

theorem applications_pairArgs (root : Path) :
    pairArgs.workspace.applications root = [loneApp 0, absentSpec.application root] :=
  congrArg (fun app => [app, absentSpec.application root]) (application_loneSpec root)

theorem loadReports_pairArgs (content : ByteArray) (root : Path) :
    (∃ app ∈ pairArgs.workspace.applications root, app.HasReport (loneTree content) "u") ∧
      loadReports (loneTree content) "u" (pairArgs.workspace.applications root) =
        .ok [loneReport loneSite (dottedDir 0)] := by
  have single : loadReports (loneTree content) "u" [loneApp 0] =
      .ok [loneReport loneSite (dottedDir 0)] := loadReports_loneTree (by decide)
  have there : ∃ app ∈ [loneApp 0] ++ absentSpec.application root :: [],
      app.HasReport (loneTree content) "u" := by
    obtain ⟨app, member, hasReport⟩ := exists_hasReport_of_loadReports single
    exact ⟨app, List.mem_append_left _ member, hasReport⟩
  obtain ⟨-, without⟩ := loadReports_without (not_hasReport_absentSpec content root) there
  rw [applications_pairArgs]
  exact ⟨there, without.trans single⟩

/-- A course of the run that gives the single chunk new source. -/
theorem exists_course_pairArgs :
    ∃ batch bench outcome,
      OptimizeCourse Engine.Any loneSurroundings pairArgs (loneTree "a".toUTF8) batch
        (bench, .ok outcome) ∧
      bench.tree.entry? loneSite.location = some (.file "x".toUTF8) ∧
      (∀ result ∈ batch.results, result.path = loneSite.path) ∧ outcome.reportPath = none := by
  obtain ⟨pool, report, steps, finished, course, noDocument, -, ended⟩ :=
    exists_course_loneArgs "a" fun root => (loadReports_pairArgs "a".toUTF8 root).2
  refine ⟨_, _, report, course, ended.chunk, fun result member => ?_, noDocument⟩
  obtain ⟨chunk, chunkMember, -, -, -, path⟩ :=
    (steps.settles finished).exists_chunk member
  rw [path, List.mem_singleton.mp chunkMember]
  rfl

/-- The single chunk gets new source, and the usage report beside it stays; an application in a
directory that is not there makes no difference. -/
theorem optimize_framed_loneTree :
    (loneTree "a".toUTF8).LinkFree ∧
      (∀ root, ∀ app ∈ pairArgs.workspace.applications root,
        app.outputDir.isAbsolute = true) ∧
      (∃ batch bench outcome, OptimizeCourse Engine.Any loneSurroundings pairArgs
          (loneTree "a".toUTF8) batch (bench, outcome) ∧
        bench.tree.entry? loneSite.location = some (.file "x".toUTF8) ∧
        bench.tree.entry? ["dist", "u"] =
          FileTree.entry? (loneTree "a".toUTF8) ["dist", "u"]) ∧
      runOptimize loneSurroundings steadySettings.engine pairArgs (loneTree "a".toUTF8) =
        runOptimize loneSurroundings steadySettings.engine (pairArgs.over [loneSpec])
          (loneTree "a".toUTF8) := by
  have linkFree := linkFree_loneTree "a".toUTF8
  have absolute : ∀ root, ∀ app ∈ pairArgs.workspace.applications root,
      app.outputDir.isAbsolute = true := by
    intro root app member
    rw [applications_pairArgs] at member
    rcases List.mem_cons.mp member with rfl | member
    · exact isAbsolute_dottedDir 0
    · rw [List.mem_singleton.mp member, application_absentSpec]
      decide
  have framed := optimize_framed (loneTree "a".toUTF8) loneSurroundings pairArgs linkFree
    fun root _ => absolute root
  obtain ⟨batch, bench, outcome, course, rewritten, results, noDocument⟩ :=
    exists_course_pairArgs
  refine ⟨linkFree, absolute, ⟨batch, bench, .ok outcome, course, rewritten, ?_⟩, ?_⟩
  · refine (framed.1 batch bench _ course).unchanged _ (fun result member => ?_) ?_
    · rw [results result member, loneSite.location_path, loneSite.location_backupPath]
      decide
    · rintro report path ⟨⟩ document
      rw [noDocument] at document
      cases document
  · obtain ⟨root, resolved⟩ : ∃ root, ProjectRoot.resolve (loneTree "a".toUTF8)
        pairArgs.workspace.root = .ok root := ⟨_, rfl⟩
    exact (framed.2.2 root [loneSpec] absentSpec [] resolved rfl
      (not_hasReport_absentSpec _ root) (loadReports_pairArgs _ root).1).2 _

end ChunkPrune
