import ChunkPrune.Proofs.Prune.Linked
import ChunkPrune.Proofs.Restore.Linked
import ChunkPrune.Proofs.Restore.RoundTrip
import ChunkPrune.Proofs.Run.Savings

/-!
# Which backups of a run restoring finds

A run reaches its chunks through links, and restoring walks past links. So a backup that a run
has written is moved back exactly when the directory where it really is lies below an output
directory; a backup behind a link stays where it is.
-/

namespace ChunkPrune

/-- The document that a run has written stands at a location. -/
def Workbench.Documented (bench : Workbench) (outcome : Except Failure RunReport)
    (location : Location) : Prop :=
  ∃ report path content, outcome = .ok report ∧ report.reportPath = some path ∧
    bench.tree.lookup true path = .ok (location, .file content)

/-- A run has written a location: its document, or for a chunk that it has located. -/
def OptimizeArgs.Wrote (args : OptimizeArgs) (root : Path) (tree : FileTree) (bench : Workbench)
    (outcome : Except Failure RunReport) (location : Location) : Prop :=
  bench.Documented outcome location ∨
    ∃ reports, loadReports tree args.workspace.usageFile (args.workspace.applications root) =
        .ok reports ∧ tree.Written (Chunk.locate tree reports) location

/-- What restoring has done with a backup and its content: it stands in the place of the chunk
when a walk leads to it, and both files are as before when none does. -/
structure Site.Recovery (site : Site) (apps : List Application) (start before after : FileTree)
    (content : ByteArray) : Prop where
  found : site.Walked apps start → after.entry? site.location = some (.file content) ∧
    after.entry? site.backup = none
  missed : ¬ site.Walked apps start → after.entry? site.location = before.entry? site.location ∧
    after.entry? site.backup = some (.file content)

/-! ## What a run writes -/

section Write

variable {engines : Engine → Prop} {surroundings : Surroundings} {args : OptimizeArgs}
  {tree : FileTree}

/-- After its batch a run writes its document at most. -/
theorem OptimizeArgs.conclude_evolves {root : Path} {merged : MergedUsage}
    {reports : List AppReport} {chunks : List Chunk} {bench after : Workbench}
    {batch : BatchResult} {outcome : Except Failure RunReport} (onDisk : bench.tree.OnDisk)
    (ended : args.conclude surroundings root merged reports chunks bench batch =
      (after, outcome)) :
    bench.tree.Evolves (after.Documented outcome) after.tree ∧ after.tree.OnDisk := by
  rw [conclude] at ended
  split at ended
  · cases written : writeReport bench.tree (args.reportFile root)
        (args.documentOn surroundings batch) with
    | error failure =>
        rw [written] at ended
        cases ended
        exact ⟨.refl _ _, onDisk⟩
    | ok next =>
        rw [written] at ended
        cases ended
        obtain ⟨place, location, resolved, takes, rfl⟩ :=
          FileTree.exists_place_of_writeFile (writeFile_of_writeReport written)
        obtain ⟨afterOnDisk, evolves⟩ := onDisk.put_file resolved takes.takesEntry
          (args.documentOn surroundings batch).toUTF8
        exact ⟨evolves ⟨_, _, _, rfl, rfl, FileTree.lookup_put resolved takes _⟩, afterOnDisk⟩
  · cases ended
    exact ⟨.refl _ _, onDisk⟩

/-- A run writes its document, and for the chunks that it locates. -/
theorem OptimizeCourse.evolves {root : Path} {batch : BatchResult} {bench : Workbench}
    {outcome : Except Failure RunReport}
    (course : OptimizeCourse engines surroundings args tree batch (bench, outcome))
    (resolved : ProjectRoot.resolve tree args.workspace.root = .ok root)
    (onDisk : tree.OnDisk)
    (absolute : ∀ app ∈ args.workspace.applications root, app.outputDir.isAbsolute = true) :
    tree.Evolves (args.Wrote root tree bench outcome) bench.tree ∧ bench.tree.OnDisk := by
  generalize ended : (bench, outcome) = pair at course
  cases course with
  | rootless failed =>
      cases ended
      exact ⟨.refl _ _, onDisk⟩
  | unloaded resolved' loaded =>
      cases ended
      exact ⟨.refl _ _, onDisk⟩
  | @batch own reports pool engine cutting ownResolved loaded steps finished =>
      obtain rfl := Except.ok.inj (ownResolved.symm.trans resolved)
      have sited : ∀ chunk ∈ Chunk.locate tree reports, ∃ site : Site,
          chunk.path = site.path := by
        intro chunk member
        obtain ⟨report, reportMember, record, source⟩ := Chunk.from_of_mem_locate member
        obtain ⟨app, appMember, -, same⟩ := exists_app_of_loadReports loaded reportMember
        obtain ⟨site, place, -⟩ := source.exists_site (same ▸ absolute app appMember)
        exact ⟨site, place⟩
      have files : ∀ chunk ∈ Chunk.locate tree reports, tree.isFile chunk.path = true := by
        intro chunk member
        obtain ⟨report, -, record, source⟩ := Chunk.from_of_mem_locate member
        exact source.isFile
      have written := steps.written onDisk sited files
      obtain ⟨evolves, afterOnDisk⟩ :=
        OptimizeArgs.conclude_evolves written.onDisk ended.symm
      refine ⟨.trans (written.evolves.mono fun location place => ?_)
        (evolves.mono fun location => Or.inl), afterOnDisk⟩
      exact Or.inr ⟨reports, loaded, place⟩

end Write

/-! ## What restoring recovers -/

/-- Restoring after files were written. -/
theorem FileTree.Evolves.recovery {places : Location → Prop} {apps : List Application}
    {start tree after : FileTree} {chunks : List Path} (evolves : start.Evolves places tree)
    (onDisk : tree.OnDisk) (absolute : ∀ app ∈ apps, app.outputDir.isAbsolute = true)
    (uncrossed : ∀ app ∈ apps, ¬ start.Crosses app.outputDir)
    (restored : restoreAll tree apps = (after, .ok chunks)) {site : Site} {content : ByteArray}
    (backup : tree.entry? site.backup = some (.file content)) :
    site.Recovery apps start tree after content := by
  have entered : ∀ app ∈ apps, tree.isDirectory app.outputDir = true →
      tree.Enters app.outputDir := by
    intro app member isDirectory
    obtain ⟨there, found⟩ := isDirectory_iff.mp isDirectory
    have before := isDirectory_iff.mpr ⟨there, evolves.lookup_directory found⟩
    exact (enters_iff evolves.directory_iff _).mpr
      (enters_of_uncrossed (absolute app member) (uncrossed app member) before)
  rw [restoreAll] at restored
  obtain ⟨rfl, sorted⟩ := Prod.mk.inj restored
  obtain ⟨moved, succeeded, -⟩ := exists_of_map_eq_ok sorted
  obtain ⟨returns, gone⟩ := restoreApps_returns onDisk entered (Prod.ext rfl succeeded)
  have walked_iff := Site.walked_iff evolves.directory_iff apps site
  constructor
  · intro walked
    have away := gone site content (walked_iff.mpr walked) backup
    rcases returns.site_cases site with ⟨-, same⟩ | ⟨entry, -, returned⟩
    · rw [same, backup] at away
      cases away
    · have same := returned.backupBefore
      rw [backup] at same
      exact ⟨returned.chunk.trans same.symm, away⟩
  · intro unwalked
    rcases returns.site_cases site with ⟨chunkSame, backupSame⟩ | ⟨entry, walked, -⟩
    · exact ⟨chunkSame, backupSame.trans backup⟩
    · exact absurd (walked_iff.mp walked) unwalked

/-- In a tree as it is on a disk, for applications with absolute output directories that no link
stands on the way to: on every course a run writes files only, its document and for the chunks
that it has located, a backup beside the place of each in the directory that is really reached.
And restoring the same applications right after the run, if it succeeds, puts a backup back in
the place of its chunk when the directory where the backup is lies below an output directory that
can be entered, by a path that is not too long; it leaves all others. The program takes one of
the courses. -/
theorem optimize_recovery (tree : FileTree) (surroundings : Surroundings) (args : OptimizeArgs)
    (root : Path) (resolved : ProjectRoot.resolve tree args.workspace.root = .ok root)
    (onDisk : tree.OnDisk)
    (absolute : ∀ app ∈ args.workspace.applications root, app.outputDir.isAbsolute = true)
    (uncrossed : ∀ app ∈ args.workspace.applications root, ¬ tree.Crosses app.outputDir) :
    (∀ batch bench outcome,
      OptimizeCourse Engine.Any surroundings args tree batch (bench, outcome) →
      (∀ location, bench.tree.entry? location ≠ tree.entry? location →
        (∃ content, bench.tree.entry? location = some (.file content)) ∧
          args.Wrote root tree bench outcome location) ∧
      ∀ (site : Site) content restored chunks,
        bench.tree.entry? site.backup = some (.file content) →
        restoreAll bench.tree (args.workspace.applications root) = (restored, .ok chunks) →
        site.Recovery (args.workspace.applications root) tree bench.tree restored content) ∧
    ∀ engine, ∃ batch, OptimizeCourse Engine.Any surroundings args tree batch
      (runOptimize surroundings engine args tree) := by
  refine ⟨fun batch bench outcome course => ?_, fun engine => ?_⟩
  · obtain ⟨evolves, afterOnDisk⟩ := course.evolves resolved onDisk absolute
    refine ⟨fun location changed => ?_, fun site content restored chunks backup succeeded => ?_⟩
    · rcases evolves.entry?_cases location with same | ⟨wrote, -, written⟩
      · exact absurd same changed
      · exact ⟨written, wrote⟩
    · exact evolves.recovery afterOnDisk absolute uncrossed succeeded backup
  · obtain ⟨batch, course⟩ := exists_course_runOptimize surroundings engine args tree
    exact ⟨batch, course.mono fun _ _ => trivial⟩

/-! ## Recovering the single chunk -/

theorem onDisk_loneTree (content : ByteArray) : (loneTree content).OnDisk := by
  have dist : FileTree.EntryName "dist" := ⟨⟨by decide, by decide, by decide⟩, by decide⟩
  have chunk : FileTree.EntryName "a.js" := ⟨⟨by decide, by decide, by decide⟩, by decide⟩
  have report : FileTree.EntryName "u" := ⟨⟨by decide, by decide, by decide⟩, by decide⟩
  have stands : ∀ location entry,
      FileTree.entry? (loneTree content) location = some entry →
      FileTree.entry? (loneTree content) location.dropLast = some .directory ∧
        ∀ name ∈ location, FileTree.EntryName name := by
    intro location entry found
    cases location with
    | nil => exact ⟨rfl, fun _ absurdity => absurd absurdity List.not_mem_nil⟩
    | cons name rest =>
        rcases entry?_loneTree content found with ⟨place, -⟩ | ⟨place, -⟩ | ⟨place, -⟩
        · rw [place]
          exact ⟨rfl, by simpa using dist⟩
        · rw [place]
          exact ⟨rfl, by simpa using ⟨dist, chunk⟩⟩
        · rw [place]
          exact ⟨rfl, by simpa using ⟨dist, report⟩⟩
  exact ⟨fun location entry found => (stands location entry found).1,
    fun location entry found => (stands location entry found).2, rfl⟩

/-- What a run leaves of the tree with the single chunk can be restored. -/
theorem exists_restoreAll_loneTree {text : String} {after : FileTree}
    (evolves : (loneTree text.toUTF8).Evolves loneSite.Places after)
    (ended : after.Holds loneSite ⟨"x".toUTF8, some (.file text.toUTF8)⟩) :
    ∃ chunks, restoreAll after [loneApp 0] = (loneTree text.toUTF8, .ok chunks) := by
  have holds := holds_loneTree text.toUTF8
  have saved : Saved (loneTree text.toUTF8) after loneSite text.toUTF8 :=
    ⟨holds.opened, by decide, holds.chunk, holds.backup, ⟨_, ended.chunk⟩, ended.backup⟩
  have restorable : Restorable [loneApp 0] (loneTree text.toUTF8) after := by
    refine ⟨evolves.workingDirectory, fun location => (evolves.entries location).imp_right ?_⟩
    rintro ⟨-, place, -⟩
    exact ⟨loneSite, _, place, saved, loneApp 0, List.mem_singleton_self _,
      walksTo_loneTree (by decide)⟩
  obtain ⟨chunks, restored⟩ := restorable.restoreApps_eq (linkFree_loneTree _)
    (isAbsolute_loneApp 0) (noBackups_loneTree (by decide)) (enterable_loneTree (by decide))
  exact ⟨chunks.mergeSort Path.le, by rw [restoreAll, restored]; rfl⟩

/-- After a run over the single chunk, restoring puts its backup back. -/
theorem optimize_recovery_loneTree :
    ∃ root, ProjectRoot.resolve (loneTree "a".toUTF8) (loneArgs [loneSpec]).workspace.root =
        .ok root ∧ (loneTree "a".toUTF8).OnDisk ∧
      (∀ app ∈ (loneArgs [loneSpec]).workspace.applications root,
        app.outputDir.isAbsolute = true) ∧
      (∀ app ∈ (loneArgs [loneSpec]).workspace.applications root,
        ¬ (loneTree "a".toUTF8).Crosses app.outputDir) ∧
      ∃ batch bench outcome restored chunks,
        OptimizeCourse Engine.Any loneSurroundings (loneArgs [loneSpec]) (loneTree "a".toUTF8)
          batch (bench, outcome) ∧
        bench.tree.entry? loneSite.backup = some (.file "a".toUTF8) ∧
        restoreAll bench.tree ((loneArgs [loneSpec]).workspace.applications root) =
          (restored, .ok chunks) ∧
        restored.entry? loneSite.location = some (.file "a".toUTF8) ∧
        restored.entry? loneSite.backup = none := by
  obtain ⟨root, resolved⟩ : ∃ root, ProjectRoot.resolve (loneTree "a".toUTF8)
      (loneArgs [loneSpec]).workspace.root = .ok root := ⟨_, rfl⟩
  have apps : (loneArgs [loneSpec]).workspace.applications root = [loneApp 0] :=
    congrArg (fun app => [app]) (application_loneSpec root)
  have onDisk := onDisk_loneTree "a".toUTF8
  have absolute := isAbsolute_loneApp 0
  have uncrossed : ∀ app ∈ [loneApp 0], ¬ (loneTree "a".toUTF8).Crosses app.outputDir :=
    fun app _ => (linkFree_loneTree "a".toUTF8).not_crosses app.outputDir
  obtain ⟨pool, report, -, -, course, -, evolves, ended⟩ :=
    exists_course_loneArgs "a" (loadReports_loneArgs "a".toUTF8)
  obtain ⟨chunks, restored⟩ := exists_restoreAll_loneTree evolves ended
  rw [← apps] at absolute uncrossed restored
  have recovery := ((optimize_recovery (loneTree "a".toUTF8) loneSurroundings
    (loneArgs [loneSpec]) root resolved onDisk absolute uncrossed).1 _ _ _ course).2 loneSite _ _ _
      ended.backup restored
  have enters : (loneTree "a".toUTF8).Enters (loneApp 0).outputDir :=
    enters_dottedDir rfl (by decide)
  have walked : loneSite.Walked ((loneArgs [loneSpec]).workspace.applications root)
      (loneTree "a".toUTF8) := by
    rw [apps]
    exact ⟨loneApp 0, List.mem_singleton_self _, enters,
      (walksTo_loneTree (by decide)).below enters (by decide)⟩
  obtain ⟨chunk, backup⟩ := recovery.found walked
  exact ⟨root, resolved, onDisk, absolute, uncrossed, _, _, _, _, _, course, ended.backup, restored,
    chunk, backup⟩

end ChunkPrune
