import ChunkPrune.Proofs.Prune.Single
import ChunkPrune.Proofs.Restore.Returns
import ChunkPrune.Proofs.Run.Course

/-!
# Restoring undoes runs

Every backup that is found is moved back onto its chunk, which then is as at the start. When
all applications are done, no saved chunk is left, so the tree is the one at the start.
-/

namespace ChunkPrune

/-- The tree after the backup of a site was moved back. -/
def FileTree.moveBack (tree : FileTree) (site : Site) (content : ByteArray) : FileTree :=
  (tree.put site.location (.file content)).remove site.backup

section MoveBack

variable {apps : List Application} {start tree : FileTree} {app : Application} {site : Site}
  {content : ByteArray}

theorem FileTree.entries_get?_moveBack (tree : FileTree) (site : Site) (content : ByteArray)
    (location : Location) :
    (tree.moveBack site content).entries.get? location =
      if site.backup = location then none
      else if site.location = location then some (.file content)
      else tree.entries.get? location := by
  rw [moveBack, entries_get?_remove, entries_get?_put]

theorem FileTree.entry?_moveBack (tree : FileTree) (site : Site) (content : ByteArray)
    {location : Location} (outside : ¬ site.Places location) :
    FileTree.entry? (tree.moveBack site content) location = tree.entry? location :=
  tree.entry?_moveOver (.file content) outside

theorem Restorable.rename_eq (restorable : Restorable apps start tree) (linkFree : start.LinkFree)
    (enters : start.Enters app.outputDir) (saved : Saved start tree site content)
    (below : site.Below app.outputDir) :
    tree.rename (site.pairFrom app.outputDir).backup (site.pairFrom app.outputDir).chunk =
      .ok (tree.moveBack site content) := by
  obtain ⟨reachesBackup, reachesChunk⟩ := restorable.reaches linkFree enters saved below
  obtain ⟨now, chunk⟩ := saved.chunk
  have different : site.location ≠ site.backup := Site.location_ne_backup site site
  rw [FileTree.rename, reachesBackup.lookup saved.backup, reachesChunk.lookup chunk]
  simp only [if_neg different]
  rw [reachesChunk.replaceAt_file chunk]
  rfl

/-- What is saved after a backup was moved back is another chunk, saved before. -/
theorem saved_moveBack_iff (saved : Saved start tree site content) {other : Site}
    {otherContent : ByteArray} :
    Saved start (tree.moveBack site content) other otherContent ↔
      other ≠ site ∧ Saved start tree other otherContent := by
  by_cases same : other = site
  · subst same
    constructor
    · intro still
      cases still.backup.symm.trans (tree.entry?_moveOver_backup other (.file content))
    · intro both
      exact absurd rfl both.1
  · have different : site ≠ other := fun equal => same equal.symm
    obtain ⟨chunkOutside, backupOutside⟩ := Site.not_places_of_ne different
    have chunkSame := tree.entry?_moveBack site content chunkOutside
    have backupSame := tree.entry?_moveBack site content backupOutside
    constructor
    · intro still
      exact ⟨same, still.congr chunkSame.symm backupSame.symm⟩
    · rintro ⟨-, before⟩
      exact before.congr chunkSame backupSame

theorem Restorable.moveBack (restorable : Restorable apps start tree)
    (saved : Saved start tree site content) :
    Restorable apps start (tree.moveBack site content) := by
  refine ⟨restorable.workingDirectory, fun location => ?_⟩
  rw [FileTree.entries_get?_moveBack]
  have original := saved.original
  have vacant := saved.vacant
  rw [FileTree.entry?_of_ne_nil _ site.location_ne_nil] at original
  rw [FileTree.entry?_of_ne_nil _ site.backup_ne_nil] at vacant
  by_cases isBackup : site.backup = location
  · rw [if_pos isBackup, ← isBackup, vacant]
    exact Or.inl rfl
  · rw [if_neg isBackup]
    by_cases isChunk : site.location = location
    · rw [if_pos isChunk, ← isChunk, original]
      exact Or.inl rfl
    · rw [if_neg isChunk]
      rcases restorable.entries location with same | ⟨other, otherContent, place, before, walks⟩
      · exact Or.inl same
      · refine Or.inr ⟨other, otherContent, place, ?_, walks⟩
        refine (saved_moveBack_iff saved).mpr ⟨?_, before⟩
        rintro rfl
        rcases place with same | same
        · exact isChunk same.symm
        · exact isBackup same.symm

end MoveBack

section Restore

variable {apps : List Application} {start tree : FileTree} {app : Application}

/-- All backups of saved chunks that were found can be moved back. -/
theorem Restorable.restorePairs_eq (restorable : Restorable apps start tree)
    (linkFree : start.LinkFree) (enters : start.Enters app.outputDir) {pairs : List BackupPair}
    (distinct : pairs.Nodup)
    (belong : ∀ pair ∈ pairs, ∃ site content, Saved start tree site content ∧
      site.Below app.outputDir ∧ pair = site.pairFrom app.outputDir) :
    ∃ after, restorePairs tree pairs = (after, .ok (pairs.map (·.chunk))) ∧
      Restorable apps start after ∧ ∀ site content, Saved start after site content →
        Saved start tree site content ∧
          (site.Below app.outputDir → site.pairFrom app.outputDir ∉ pairs) := by
  induction pairs generalizing tree with
  | nil =>
      exact ⟨tree, rfl, restorable, fun site content saved =>
        ⟨saved, fun _ => List.not_mem_nil⟩⟩
  | cons pair rest inductionHypothesis =>
      obtain ⟨site, content, saved, below, rfl⟩ := belong pair List.mem_cons_self
      obtain ⟨fresh, restDistinct⟩ := List.nodup_cons.mp distinct
      have restBelong : ∀ pair ∈ rest, ∃ other otherContent,
          Saved start (tree.moveBack site content) other otherContent ∧
            other.Below app.outputDir ∧ pair = other.pairFrom app.outputDir := by
        intro pair member
        obtain ⟨other, otherContent, before, otherBelow, rfl⟩ :=
          belong pair (List.mem_cons_of_mem _ member)
        refine ⟨other, otherContent, (saved_moveBack_iff saved).mpr ⟨?_, before⟩, otherBelow, rfl⟩
        rintro rfl
        exact fresh member
      obtain ⟨after, restored, left, others⟩ :=
        inductionHypothesis (restorable.moveBack saved) restDistinct restBelong
      refine ⟨after, ?_, left, ?_⟩
      · rw [restorePairs, restorable.rename_eq linkFree enters saved below]
        simp only [restored]
        rfl
      · intro other otherContent still
        obtain ⟨moved, notMember⟩ := others other otherContent still
        obtain ⟨different, before⟩ := (saved_moveBack_iff saved).mp moved
        refine ⟨before, fun otherBelow member => ?_⟩
        rcases List.mem_cons.mp member with same | member
        · obtain ⟨reaches, -⟩ := restorable.reaches linkFree enters saved below
          obtain ⟨otherReaches, -⟩ := restorable.reaches linkFree enters before otherBelow
          rw [same] at otherReaches
          exact different (Site.ext_backup (otherReaches.unique reaches))
        · exact notMember otherBelow member

/-- An application that walks to no saved chunk can be left out. -/
theorem Restorable.tail {rest : List Application}
    (restorable : Restorable (app :: rest) start tree)
    (unwalked : ∀ site content, Saved start tree site content → ¬ app.WalksTo start site.path) :
    Restorable rest start tree := by
  refine ⟨restorable.workingDirectory, fun location => ?_⟩
  rcases restorable.entries location with
    same | ⟨site, content, place, saved, other, member, walks⟩
  · exact Or.inl same
  · rcases List.mem_cons.mp member with rfl | member
    · exact absurd walks (unwalked site content saved)
    · exact Or.inr ⟨site, content, place, saved, other, member, walks⟩

/-- Restoring an application leaves only chunks that other applications walk to. -/
theorem Restorable.exists_restorePairs {rest : List Application}
    (restorable : Restorable (app :: rest) start tree) (linkFree : start.LinkFree)
    (absolute : app.outputDir.isAbsolute = true) (noBackups : NoBackups start (app :: rest))
    (enterable : Enterable start (app :: rest)) :
    ∃ pairs after, findBackups tree app.outputDir = .ok pairs ∧
      restorePairs tree pairs = (after, .ok (pairs.map (·.chunk))) ∧
      Restorable rest start after := by
  by_cases isDirectory : start.isDirectory app.outputDir = true
  · have enters := FileTree.enters_of_isDirectory linkFree absolute isDirectory
    obtain ⟨pairs, found, distinct, belong, complete⟩ :=
      restorable.findBackups_eq linkFree noBackups enterable List.mem_cons_self enters
    obtain ⟨after, restored, left, others⟩ :=
      restorable.restorePairs_eq linkFree enters distinct belong
    refine ⟨pairs, after, found, restored, left.tail ?_⟩
    intro site content saved walks
    obtain ⟨before, notFound⟩ := others site content saved
    have below := walks.below enters saved.accepted
    exact notFound below (complete site content before below)
  · have treeNot : tree.isDirectory app.outputDir ≠ true := by
      intro treeIs
      have treeEnters :=
        FileTree.enters_of_isDirectory (restorable.linkFree linkFree) absolute treeIs
      have enters : start.Enters app.outputDir :=
        treeEnters.mono fun location => (restorable.directory_iff location).mp
      apply isDirectory
      rw [FileTree.isDirectory, enters.lookup true]
    refine ⟨[], tree, findBackups_of_not_directory treeNot, rfl, restorable.tail ?_⟩
    intro site content saved walks
    exact isDirectory walks.1

/-- Restoring all applications gives the start back. -/
theorem Restorable.restoreApps_eq (restorable : Restorable apps start tree)
    (linkFree : start.LinkFree) (absolute : ∀ app ∈ apps, app.outputDir.isAbsolute = true)
    (noBackups : NoBackups start apps) (enterable : Enterable start apps) :
    ∃ chunks, restoreApps tree apps = (start, .ok chunks) := by
  induction apps generalizing tree with
  | nil =>
      have same : tree = start := by
        apply FileTree.ext_entries restorable.workingDirectory
        intro location
        rcases restorable.entries location with same | ⟨_, _, _, _, _, member, _⟩
        · exact same
        · exact absurd member List.not_mem_nil
      exact ⟨[], by rw [restoreApps, same]⟩
  | cons app rest inductionHypothesis =>
      obtain ⟨pairs, after, found, restored, left⟩ :=
        restorable.exists_restorePairs linkFree (absolute app List.mem_cons_self) noBackups
          enterable
      obtain ⟨chunks, others⟩ := inductionHypothesis left
        (fun other member => absolute other (List.mem_cons_of_mem _ member))
        (fun other member => noBackups other (List.mem_cons_of_mem _ member))
        (fun other member => enterable other (List.mem_cons_of_mem _ member))
      refine ⟨pairs.map (·.chunk) ++ chunks, ?_⟩
      rw [restoreApps, found]
      simp only [restored, others]
      rfl

end Restore

/-! ## The runs of the program -/

/-- A successful run of the program that is to write no report document. -/
theorem runOver_of_runOptimize {surroundings : Surroundings} {engine : Engine}
    {args : OptimizeArgs} {tree : FileTree} {bench : Workbench} {report : RunReport}
    (ran : runOptimize surroundings engine args tree = (bench, .ok report))
    (noReport : args.report = false) :
    ∃ reports, loadReports tree args.workspace.usageFile
        (args.workspace.applications report.root) = .ok reports ∧
      RunOver (args.workspace.applications report.root) tree (Chunk.locate tree reports)
        bench.tree := by
  obtain ⟨batch, course⟩ := exists_course_runOptimize surroundings engine args tree
  rw [ran] at course
  generalize ended : (bench, (.ok report : Except Failure RunReport)) = pair at course
  cases course with
  | rootless resolved => cases ended
  | unloaded resolved loaded => cases ended
  | @batch root reports pool taken cutting resolved loaded steps finished =>
      rw [OptimizeArgs.conclude_of_no_document noReport] at ended
      cases ended
      exact ⟨reports, loaded, args.workspace.usageFile, surroundings.mergeTime, reports,
        args.settings surroundings taken cutting, pool, loaded, rfl,
        steps.mono fun _ _ => trivial, finished, rfl⟩

/-- After runs over applications with absolute output directories, in a tree without links and
without backups, restoring the same applications gives the tree at the start back: when all
located chunks were not empty, all directories can be walked to, and each located chunk is
walked to with a backup path that is not too long. -/
theorem restoreAll_of_runs {apps : List Application} {start after : FileTree}
    {located : List Chunk} (runs : Runs apps start located after) (linkFree : start.LinkFree)
    (absolute : ∀ app ∈ apps, app.outputDir.isAbsolute = true)
    (noBackups : NoBackups start apps) (enterable : Enterable start apps)
    (filled : ∀ chunk ∈ located, start.length chunk.path ≠ .ok 0)
    (walked : ∀ chunk ∈ located, ∃ app ∈ apps, app.WalksTo start chunk.path) :
    ∃ chunks, restoreAll after apps = (start, .ok chunks) := by
  have restorable := runs.restorable linkFree absolute noBackups filled walked
  obtain ⟨chunks, restored⟩ := restorable.restoreApps_eq linkFree absolute noBackups enterable
  refine ⟨chunks.mergeSort Path.le, ?_⟩
  rw [restoreAll, restored]
  rfl

/-! ## The tree with a single chunk

Its application may have any number of points in the path of the output directory: what a run
makes of the tree, and what stands in it for a walk. -/

section Lone

variable {count : Nat} {content : ByteArray}

/-- A run over the tree with a single chunk makes a backup and overwrites the chunk. -/
theorem exists_runs_loneTree (text : String) (short : 2 * count + 7 < FileTree.pathBound) :
    ∃ after, Runs [loneApp count] (loneTree text.toUTF8) [loneChunk loneSite] after ∧
      (loneTree text.toUTF8).Evolves loneSite.Places after ∧
      after.Holds loneSite ⟨"x".toUTF8, some (.file text.toUTF8)⟩ := by
  have linkFree := linkFree_loneTree text.toUTF8
  have holds := holds_loneTree text.toUTF8
  have enters : (loneTree text.toUTF8).Enters (dottedDir count) := enters_dottedDir rfl (by omega)
  have located := locate_loneReport linkFree holds (by decide) enters (location_dottedDir count)
  have place : (loneChunk loneSite).path = loneSite.path := rfl
  obtain ⟨pool, steps, finished, evolves, ended⟩ := Pool.exists_steps_single
    (.ofReports "" [loneReport loneSite (dottedDir count)]) steadySettings linkFree holds place
  have flags := keepFlags_loneReport loneSite (dottedDir count)
  have read : (⟨text.toUTF8, none⟩ : Slot).chunk = text.toUTF8 := rfl
  have accepted : FileTree.refusal? loneSite.directory loneSite.backupName = none := by decide
  rw [Slot.prune_loneChunk flags read accepted (Or.inl rfl)] at ended
  have run : RunOver [loneApp count] (loneTree text.toUTF8) [loneChunk loneSite]
      pool.bench.tree :=
    ⟨"u", "", _, steadySettings, pool, loadReports_loneTree short, located.symm,
      Pool.Steps.mono steps fun _ _ => trivial, finished, rfl⟩
  exact ⟨pool.bench.tree, .more (.none _) run, evolves, ended⟩

/-- Neither the chunk nor the usage report has the path of a backup. -/
theorem not_backup_of_last {name : String} {last : Char}
    (ends : Text.endsWith name (String.singleton last) = true) (different : last ≠ 'l') :
    Text.endsWith ((dottedDir count).spelled [name]).text
      (Chunk.extension ++ Chunk.backupSuffix) = false := by
  have spelled : Text.endsWith ((dottedDir count).spelled ([] ++ [name])).text
      (String.singleton last) = true := Path.endsWith_spelled _ [] ends
  rw [Bool.eq_false_iff]
  intro backup
  have same := (Text.getLast?_of_endsWith spelled (by simp)).symm.trans
    (Text.getLast?_of_endsWith backup (by decide))
  rw [String.toList_singleton, List.getLast?_singleton] at same
  exact different (Option.some.inj same)

theorem noBackups_loneTree (short : 2 * count + 5 < FileTree.pathBound) :
    NoBackups (loneTree content) [loneApp count] := by
  intro app member path listed
  rw [List.mem_singleton.mp member] at listed
  obtain ⟨⟨_, entry⟩, entryListed, rfl⟩ := List.mem_map.mp listed
  have chunkEnds : Text.endsWith "a.js" (String.singleton 's') = true := by decide
  have reportEnds : Text.endsWith "u" (String.singleton 'u') = true := by decide
  rcases (entriesBelow_loneTree short entryListed).2 with same | same
  · rw [same]
    exact not_backup_of_last chunkEnds (by decide)
  · rw [same]
    exact not_backup_of_last reportEnds (by decide)

theorem enterable_loneTree (short : 2 * count + 5 < FileTree.pathBound) :
    Enterable (loneTree content) [loneApp count] := by
  rintro app member ⟨path, entry⟩ listed
  rw [List.mem_singleton.mp member] at listed
  cases entry with
  | directory => exact absurd rfl (entriesBelow_loneTree short listed).1
  | file content => rfl
  | link target => rfl

theorem walksTo_loneTree (short : 2 * count + 19 < FileTree.pathBound) :
    (loneApp count).WalksTo (loneTree content) loneSite.path := by
  refine ⟨?_, ["a.js"], by decide, ?_, ?_⟩
  · rw [FileTree.isDirectory, loneApp, (enters_dottedDir rfl (by omega)).lookup true]
  · rw [loneApp, location_dottedDir, Site.path,
      Path.location_pathOf fun _ => Site.isName_of_mem_location]
    rfl
  · have size : loneSite.name.utf8ByteSize = 4 := by decide
    have slash : String.utf8ByteSize "/" = 1 := by decide
    have suffix : Chunk.backupSuffix.utf8ByteSize = 9 := by decide
    have text := text_spelled_dottedDir count loneSite.isName
    show (((dottedDir count).spelled [loneSite.name]).text ++
      Chunk.backupSuffix).utf8ByteSize < _
    rw [text, String.utf8ByteSize_append, String.utf8ByteSize_append, String.utf8ByteSize_append,
      utf8ByteSize_dottedDir, size, slash, suffix]
    omega

theorem filled_loneTree {chunk : Chunk} (member : chunk ∈ [loneChunk loneSite]) :
    (loneTree "a".toUTF8).length chunk.path ≠ .ok 0 := by
  have holds := holds_loneTree "a".toUTF8
  have length := (holds.reaches (linkFree_loneTree "a".toUTF8)).length_file holds.chunk
  rw [List.mem_singleton.mp member, loneChunk, length]
  decide

end Lone

/-- A run over the tree with a single chunk changes the tree, and restoring undoes it. -/
theorem restoreAll_of_runs_loneTree :
    ∃ after, Runs [loneApp 0] (loneTree "a".toUTF8) [loneChunk loneSite] after ∧
      after ≠ loneTree "a".toUTF8 ∧ (loneTree "a".toUTF8).LinkFree ∧
      (∀ app ∈ [loneApp 0], app.outputDir.isAbsolute = true) ∧
      NoBackups (loneTree "a".toUTF8) [loneApp 0] ∧ Enterable (loneTree "a".toUTF8) [loneApp 0] ∧
      (∀ chunk ∈ [loneChunk loneSite], (loneTree "a".toUTF8).length chunk.path ≠ .ok 0) ∧
      (∀ chunk ∈ [loneChunk loneSite], ∃ app ∈ [loneApp 0],
        app.WalksTo (loneTree "a".toUTF8) chunk.path) ∧
      ∃ chunks, restoreAll after [loneApp 0] = (loneTree "a".toUTF8, .ok chunks) := by
  have linkFree := linkFree_loneTree "a".toUTF8
  have short : 2 * 0 + 7 < FileTree.pathBound := by decide
  obtain ⟨after, runs, -, ended⟩ := exists_runs_loneTree "a" short
  have absolute := isAbsolute_loneApp 0
  have noBackups : NoBackups (loneTree "a".toUTF8) [loneApp 0] := noBackups_loneTree (by decide)
  have enterable : Enterable (loneTree "a".toUTF8) [loneApp 0] := enterable_loneTree (by decide)
  have filled : ∀ chunk ∈ [loneChunk loneSite],
      (loneTree "a".toUTF8).length chunk.path ≠ .ok 0 := fun _ => filled_loneTree
  have walked : ∀ chunk ∈ [loneChunk loneSite], ∃ app ∈ [loneApp 0],
      app.WalksTo (loneTree "a".toUTF8) chunk.path := by
    intro chunk member
    rw [List.mem_singleton.mp member]
    exact ⟨loneApp 0, List.mem_singleton_self _, walksTo_loneTree (by decide)⟩
  refine ⟨after, runs, ?_, linkFree, absolute, noBackups, enterable, filled, walked,
    restoreAll_of_runs runs linkFree absolute noBackups enterable filled walked⟩
  rintro rfl
  have vacant := ended.backup
  rw [(holds_loneTree "a".toUTF8).backup] at vacant
  cases vacant

/-- With so many points on the way that its path is too long, the backup of the single chunk is
not found. -/
theorem findBackups_dottedDir {content : ByteArray} {after : FileTree} {count : Nat}
    (short : 2 * count + 5 < FileTree.pathBound) (long : FileTree.pathBound ≤ 2 * count + 19)
    (evolves : (loneTree content).Evolves loneSite.Places after) {pairs : List BackupPair}
    (found : findBackups after (dottedDir count) = .ok pairs) : pairs = [] := by
  have enters : after.Enters (dottedDir count) := enters_dottedDir (evolves.directory rfl) short
  apply List.eq_nil_iff_forall_not_mem.mpr
  intro pair member
  obtain ⟨listed, isFile, belongs⟩ := (mem_findBackups_iff found).mp member
  obtain ⟨⟨path, entry⟩, entryListed, shape⟩ := List.mem_map.mp listed
  obtain ⟨names, nonempty, rfl, there⟩ := (FileTree.mem_entriesBelow_iff enters).mp entryListed
  rw [← shape] at isFile belongs
  have backup := endsWith_of_ofBackup? belongs
  have chunkEnds : Text.endsWith "a.js" (String.singleton 's') = true := by decide
  have reportEnds : Text.endsWith "u" (String.singleton 'u') = true := by decide
  have isChunk : names ≠ ["a.js"] := by
    rintro rfl
    rw [not_backup_of_last chunkEnds (by decide)] at backup
    cases backup
  have isReport : names ≠ ["u"] := by
    rintro rfl
    rw [not_backup_of_last reportEnds (by decide)] at backup
    cases backup
  have isBackup : names ≠ [loneSite.backupName] := by
    rintro rfl
    have size : loneSite.backupName.utf8ByteSize = 13 := by decide
    have slash : String.utf8ByteSize "/" = 1 := by decide
    have fits := (FileTree.text_of_isFile isFile).2
    rw [text_spelled_dottedDir count loneSite.isName_backupName, String.utf8ByteSize_append,
      String.utf8ByteSize_append, utf8ByteSize_dottedDir, size, slash] at fits
    omega
  rw [location_dottedDir] at there
  rcases evolves.entries (["dist"] ++ names) with same | ⟨-, place | place, -⟩
  · rw [same] at there
    rcases entry?_loneTree content there with ⟨place, -⟩ | ⟨place, -⟩ | ⟨place, -⟩
    · exact nonempty (List.cons.inj place).2
    · exact isChunk (List.cons.inj place).2
    · exact isReport (List.cons.inj place).2
  · exact isChunk (List.cons.inj place).2
  · exact isBackup (List.cons.inj place).2

theorem restoreAll_dottedDir {content : ByteArray} {start after : FileTree} {count : Nat}
    (short : 2 * count + 5 < FileTree.pathBound) (long : FileTree.pathBound ≤ 2 * count + 19)
    (evolves : (loneTree content).Evolves loneSite.Places after) {chunks : List Path}
    (restored : restoreAll after [loneApp count] = (start, .ok chunks)) : after = start := by
  rw [restoreAll, restoreApps] at restored
  cases found : findBackups after (loneApp count).outputDir with
  | error failure =>
      rw [found] at restored
      cases restored
  | ok pairs =>
      obtain rfl := findBackups_dottedDir short long evolves found
      rw [found] at restored
      cases restored
      rfl

/-- Without a bound on the spelled paths, restoring does not undo runs: with 2040 points on the
way to the single chunk, its backup stays. -/
theorem not_restoreAll_of_runs :
    ¬ ∀ (apps : List Application) (start after : FileTree) (located : List Chunk),
      Runs apps start located after → start.LinkFree →
      (∀ app ∈ apps, app.outputDir.isAbsolute = true) → NoBackups start apps →
      (∀ chunk ∈ located, start.length chunk.path ≠ .ok 0) →
      ∃ chunks, restoreAll after apps = (start, .ok chunks) := by
  intro claim
  have exists_count : ∃ count, 2 * count + 7 < FileTree.pathBound ∧
      FileTree.pathBound ≤ 2 * count + 19 := ⟨2040, by decide, by decide⟩
  obtain ⟨count, short, long⟩ := exists_count
  obtain ⟨after, runs, evolves, ended⟩ := exists_runs_loneTree "a" short
  obtain ⟨chunks, restored⟩ := claim _ _ _ _ runs (linkFree_loneTree _)
    (isAbsolute_loneApp count) (noBackups_loneTree (by omega))
    (fun _ => filled_loneTree)
  have kept := restoreAll_dottedDir (by omega) long evolves restored
  have vacant := ended.backup
  rw [kept, (holds_loneTree "a".toUTF8).backup] at vacant
  cases vacant

end ChunkPrune
