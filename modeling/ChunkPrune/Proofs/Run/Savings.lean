import ChunkPrune.Proofs.Prune.Savings
import ChunkPrune.Proofs.Run.Frame

/-!
# The savings that a run reports

The summary adds up results, of which one file may have several, none, or one for each of
several libraries and applications. In a tree without links its total is still what the files
of the located chunks have lost, each of them counted once.
-/

namespace ChunkPrune

/-- A summary accounts for some chunks: they are files before and after, and the total is what
these files have lost, each of them counted once. -/
structure Summary.AccountsFor (chunks : List Chunk) (before after : FileTree)
    (summary : Summary) : Prop where
  files : ∀ chunk ∈ chunks, before.isFile chunk.path = true ∧ after.isFile chunk.path = true
  totalSaved : summary.totalSaved = ∑ path ∈ (chunks.map (·.path)).toFinset,
    ((before.sizeAt path : Int) - after.sizeAt path)

theorem FileTree.HasSite.isFile {tree : FileTree} {path : Path} (there : tree.HasSite path)
    (linkFree : tree.LinkFree) : tree.isFile path = true := by
  obtain ⟨site, slot, place, holds⟩ := there
  rw [place]
  exact (holds.reaches linkFree).isFile holds.chunk

/-- A run that returns a report without a document ends with its batch. -/
theorem OptimizeArgs.conclude_of_reportPath {args : OptimizeArgs} {surroundings : Surroundings}
    {root : Path} {merged : MergedUsage} {reports : List AppReport} {chunks : List Chunk}
    {bench : Workbench} {batch : BatchResult} {report : RunReport}
    (returned : (args.conclude surroundings root merged reports chunks bench batch).2 =
      .ok report) (noDocument : report.reportPath = none) :
    args.conclude surroundings root merged reports chunks bench batch =
      (bench, .ok (reportOn root merged reports chunks batch none)) := by
  rw [conclude] at returned ⊢
  split at returned
  · split at returned
    · cases returned
      cases noDocument
    · cases returned
  next other => rw [if_neg other]

section Accounts

variable {engines : Engine → Prop} {surroundings : Surroundings} {args : OptimizeArgs}
  {tree : FileTree}

theorem OptimizeCourse.accounts {batch : BatchResult} {bench : Workbench} {report : RunReport}
    (course : OptimizeCourse engines surroundings args tree batch (bench, .ok report))
    (linkFree : tree.LinkFree)
    (absolute : ∀ root, ProjectRoot.resolve tree args.workspace.root = .ok root →
      ∀ app ∈ args.workspace.applications root, app.outputDir.isAbsolute = true)
    (noDocument : report.reportPath = none)
    (beforeFits : total (report.results.map (·.sizeBefore)) < 2 ^ 63)
    (afterFits : total (report.results.map (·.sizeAfter)) < 2 ^ 63) :
    ∃ root reports, ProjectRoot.resolve tree args.workspace.root = .ok root ∧
      loadReports tree args.workspace.usageFile (args.workspace.applications root) =
        .ok reports ∧
      report.summary.AccountsFor (Chunk.locate tree reports) tree bench.tree := by
  generalize outcome : (bench, Except.ok report) = ended at course
  cases course with
  | rootless resolved => cases outcome
  | unloaded resolved loaded => cases outcome
  | @batch root reports pool engine cutting resolved loaded steps finished =>
      have returned := congrArg Prod.snd outcome.symm
      rw [OptimizeArgs.conclude_of_reportPath returned noDocument] at outcome
      cases outcome
      have reportsAbsolute : ∀ report ∈ reports, report.outputDir.isAbsolute = true := by
        intro report member
        obtain ⟨app, appMember, -, same⟩ := exists_app_of_loadReports loaded member
        exact same ▸ absolute root resolved app appMember
      have there : ∀ chunk ∈ Chunk.locate tree reports, tree.HasSite chunk.path :=
        fun chunk member => Chunk.hasSite_of_mem_locate linkFree reportsAbsolute member
      obtain ⟨plan, -, invariant⟩ :=
        steps.exists_invariant linkFree (Pool.exists_site_of_hasSite there)
      refine ⟨root, reports, resolved, loaded, ?_, ?_⟩
      · intro chunk member
        have site := there chunk member
        exact ⟨site.isFile linkFree, (site.evolves invariant.evolves).isFile invariant.linkFree⟩
      · exact (Summary.totalSaved_ofResults beforeFits afterFits).trans
          (steps.sum_bytesSaved linkFree there finished)

end Accounts

/-- In a tree without links, for applications with absolute output directories: whatever course a
run takes, if it returns a report without a document and the sizes of its results add up to less
than `2 ^ 63`, then its summary accounts for the located chunks. The program takes one of the
courses. -/
theorem optimize_accounts (tree : FileTree) (surroundings : Surroundings) (args : OptimizeArgs)
    (linkFree : tree.LinkFree)
    (absolute : ∀ root, ProjectRoot.resolve tree args.workspace.root = .ok root →
      ∀ app ∈ args.workspace.applications root, app.outputDir.isAbsolute = true) :
    (∀ batch bench report,
      OptimizeCourse Engine.Any surroundings args tree batch (bench, .ok report) →
      report.reportPath = none →
      total (report.results.map (·.sizeBefore)) < 2 ^ 63 →
      total (report.results.map (·.sizeAfter)) < 2 ^ 63 →
      ∃ root reports, ProjectRoot.resolve tree args.workspace.root = .ok root ∧
        loadReports tree args.workspace.usageFile (args.workspace.applications root) =
          .ok reports ∧
        report.summary.AccountsFor (Chunk.locate tree reports) tree bench.tree) ∧
    ∀ engine, ∃ batch, OptimizeCourse Engine.Any surroundings args tree batch
      (runOptimize surroundings engine args tree) := by
  refine ⟨?_, fun engine => ?_⟩
  · intro batch bench report course noDocument beforeFits afterFits
    exact course.accounts linkFree absolute noDocument beforeFits afterFits
  · obtain ⟨batch, course⟩ := exists_course_runOptimize surroundings engine args tree
    exact ⟨batch, course.mono fun _ _ => trivial⟩

/-! ## A run over a file that is listed for two libraries -/

/-- A chunk that is read at its site gets the source that every call is answered with. -/
theorem Chunk.prune_steady {merged : MergedUsage} {bench : Workbench} {chunk : Chunk} {site : Site}
    {source : String} {before after : Option Entry} {written : Bool}
    (linkFree : bench.tree.LinkFree) (holds : bench.tree.Holds site ⟨source.toUTF8, before⟩)
    (place : chunk.path = site.path) (begun : (chunk.begin merged steadySettings).2 = .read)
    (published : Slot.publish ⟨source.toUTF8, before⟩ site source source.toUTF8 =
      (⟨source.toUTF8, after⟩, .ok written)) :
    bench.tree.Evolves site.Places (chunk.prune merged steadySettings bench).1.tree ∧
      (chunk.prune merged steadySettings bench).1.tree.Holds site ⟨"x".toUTF8, after⟩ ∧
      (chunk.prune merged steadySettings bench).2 =
        (chunk.begin merged steadySettings).1.pruned ⟨source, "x", .silent⟩ written := by
  have read : (⟨source.toUTF8, before⟩ : Slot).chunk = source.toUTF8 := rfl
  obtain ⟨moved, ended, outcome⟩ := Chunk.prune_eq merged steadySettings linkFree holds place
  rw [Slot.prune_of_answer place begun read rfl read?_sourceAnswer rfl, published,
    Slot.overwrite] at ended outcome
  exact ⟨moved, ended, outcome⟩

theorem loadReports_sharedTree (root : Path) :
    loadReports sharedTree "u" ((loneArgs [loneSpec]).workspace.applications root) =
      .ok [sharedReport] := by
  have apps : (loneArgs [loneSpec]).workspace.applications root = [loneApp 0] :=
    congrArg (fun app => [app]) (application_loneSpec root)
  rw [apps]
  exact loadReports_of_text linkFree_sharedTree rfl rfl read?_sharedUsageText (by decide)

/-- The file with two libraries is pruned twice, and the second time it has the source that it was
given the first time. -/
theorem pruneInOrder_sharedTree :
    (pruneInOrder sharedUsage steadySettings (.ofTree sharedTree) sharedChunks).2.results.map
        (fun result => (result.library, result.path, result.sizeBefore, result.sizeAfter)) =
      [("left", loneSite.path, 3, 1), ("left", besideSite.path, 2, 1),
        ("right", loneSite.path, 1, 1)] := by
  have linkFree : (Workbench.ofTree sharedTree).tree.LinkFree := linkFree_sharedTree
  have left := keepFlags_sharedUsage "left" (by decide)
  have right := keepFlags_sharedUsage "right" (by decide)
  have apart : loneSite ≠ besideSite := fun same => absurd (congrArg Site.name same) (by decide)
  obtain ⟨holds, besideHolds⟩ := holds_sharedTree
  have begun : (sharedChunks[0].begin sharedUsage steadySettings).2 = .read :=
    Chunk.begin_read left rfl steadySettings
  obtain ⟨moved, ended, first⟩ := Chunk.prune_steady linkFree holds rfl begun
    (Slot.publish_of_gives (by decide) (.inl rfl) _)
  obtain ⟨chunkOutside, backupOutside⟩ := Site.not_places_of_ne apart
  have besideBegun : (sharedChunks[1].begin sharedUsage steadySettings).2 = .read :=
    Chunk.begin_read left rfl steadySettings
  obtain ⟨besideMoved, -, second⟩ := Chunk.prune_steady (moved.linkFree linkFree)
    (besideHolds.of_evolves moved chunkOutside backupOutside) rfl besideBegun
    (Slot.publish_of_gives (by decide) (.inl rfl) _)
  obtain ⟨chunkAside, backupAside⟩ := Site.not_places_of_ne apart.symm
  have againBegun : (sharedChunks[2].begin sharedUsage steadySettings).2 = .read :=
    Chunk.begin_read right rfl steadySettings
  obtain ⟨-, -, third⟩ :=
    Chunk.prune_steady (besideMoved.linkFree (moved.linkFree linkFree))
      (ended.of_evolves besideMoved chunkAside backupAside) rfl againBegun
      (Slot.publish_of_filled (by decide) rfl (by decide) _ _)
  have outcomes := congrArg₂ List.cons first
    (congrArg₂ List.cons second (congrArg₂ List.cons third (Eq.refl [])))
  exact congrArg (fun outcomes => (BatchResult.ofOutcomes outcomes).results.map fun result =>
    (result.library, result.path, result.sizeBefore, result.sizeAfter)) outcomes

/-- A course of the run over the tree. -/
theorem exists_course_sharedTree :
    ∃ batch bench report, OptimizeCourse Engine.Any loneSurroundings (loneArgs [loneSpec])
        sharedTree batch (bench, .ok report) ∧
      report.reportPath = none ∧
      report.results.map (fun result => (result.library, result.path, result.sizeBefore,
          result.sizeAfter)) =
        [("left", loneSite.path, 3, 1), ("left", besideSite.path, 2, 1),
          ("right", loneSite.path, 1, 1)] := by
  have allowed : steadySettings.engine.Only steadySettings.engine := rfl
  have there : ∀ chunk ∈ Chunk.locate sharedTree [sharedReport],
      sharedTree.HasSite chunk.path := by
    intro chunk member
    refine Chunk.hasSite_of_mem_locate linkFree_sharedTree (fun report only => ?_) member
    rw [List.mem_singleton.mp only]
    exact isAbsolute_dottedDir 0
  obtain ⟨pool, steps, finished, -⟩ := Pool.exists_steps_pruneChunks allowed sharedUsage
    (.ofTree sharedTree) (Chunk.locate sharedTree [sharedReport])
  obtain ⟨report, course, noDocument, results⟩ :=
    exists_course_of_steps loadReports_sharedTree steps finished
  refine ⟨_, _, report, course, noDocument, ?_⟩
  rw [results, (Pool.eq_pruneInOrder linkFree_sharedTree there steps finished).2,
    locate_sharedTree]
  exact pruneInOrder_sharedTree

/-- The run accounts for both files, of which one has two results. -/
theorem optimize_accounts_sharedTree :
    sharedTree.LinkFree ∧
      (∀ root, ∀ app ∈ (loneArgs [loneSpec]).workspace.applications root,
        app.outputDir.isAbsolute = true) ∧
      ∃ batch bench report, OptimizeCourse Engine.Any loneSurroundings (loneArgs [loneSpec])
          sharedTree batch (bench, .ok report) ∧
        report.reportPath = none ∧
        report.results.map (fun result => (result.library, result.path, result.sizeBefore,
            result.sizeAfter)) =
          [("left", loneSite.path, 3, 1), ("left", besideSite.path, 2, 1),
            ("right", loneSite.path, 1, 1)] ∧
        total (report.results.map (·.sizeBefore)) < 2 ^ 63 ∧
        total (report.results.map (·.sizeAfter)) < 2 ^ 63 ∧
        report.summary.AccountsFor sharedChunks sharedTree bench.tree := by
  have absolute : ∀ root, ∀ app ∈ (loneArgs [loneSpec]).workspace.applications root,
      app.outputDir.isAbsolute = true := by
    intro root app member
    have single : app ∈ [loneSpec.application root] := member
    rw [List.mem_singleton.mp single, application_loneSpec]
    exact isAbsolute_loneApp 0 _ (List.mem_singleton_self _)
  obtain ⟨batch, bench, report, course, noDocument, results⟩ := exists_course_sharedTree
  have before : report.results.map (·.sizeBefore) = [3, 2, 1] := by
    have sizes := congrArg (List.map fun figures => figures.2.2.1) results
    rwa [List.map_map] at sizes
  have after : report.results.map (·.sizeAfter) = [1, 1, 1] := by
    have sizes := congrArg (List.map fun figures => figures.2.2.2) results
    rwa [List.map_map] at sizes
  have beforeFits : total (report.results.map (·.sizeBefore)) < 2 ^ 63 := by
    rw [before]
    decide
  have afterFits : total (report.results.map (·.sizeAfter)) < 2 ^ 63 := by
    rw [after]
    decide
  obtain ⟨root, reports, resolved, loaded, accounts⟩ :=
    (optimize_accounts sharedTree loneSurroundings (loneArgs [loneSpec]) linkFree_sharedTree
      fun root _ => absolute root).1 batch bench report course noDocument beforeFits afterFits
  obtain rfl := Except.ok.inj ((loadReports_sharedTree root).symm.trans loaded)
  rw [locate_sharedTree] at accounts
  exact ⟨linkFree_sharedTree, absolute, batch, bench, report, course, noDocument, results,
    beforeFits, afterFits, accounts⟩

end ChunkPrune
