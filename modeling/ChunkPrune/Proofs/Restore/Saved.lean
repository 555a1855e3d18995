import ChunkPrune.Run
import ChunkPrune.Proofs.FileTree.Spelled
import ChunkPrune.Proofs.Prune.Pristine
import ChunkPrune.Proofs.Usage.Recorded

/-!
# What runs leave to restore

After any runs, a tree differs from the tree at the start only at chunks that are saved: the
backup of a saved chunk has the content that the chunk had at the start, and there was nothing
in the place of the backup.
-/

namespace ChunkPrune

/-- Restoring an application walks to a path: its output directory is entered, names lead from
there to the path, and the path of the backup, as spelled on the walk, is not too long. -/
def Application.WalksTo (tree : FileTree) (app : Application) (path : Path) : Prop :=
  tree.isDirectory app.outputDir = true ∧
    ∃ names, names ≠ [] ∧ path.location = app.outputDir.location ++ names ∧
      (Chunk.backupPath (app.outputDir.spelled names)).text.utf8ByteSize < FileTree.pathBound

/-- The chunk of a site has a backup with the content it had at the start. -/
structure Saved (start tree : FileTree) (site : Site) (content : ByteArray) : Prop where
  opened : start.Open [] site.directory
  accepted : FileTree.refusal? site.directory site.backupName = none
  original : start.entry? site.location = some (.file content)
  vacant : start.entry? site.backup = none
  chunk : ∃ now, tree.entry? site.location = some (.file now)
  backup : tree.entry? site.backup = some (.file content)

/-- The tree differs from the start at saved chunks only, to which the applications walk. -/
structure Restorable (apps : List Application) (start tree : FileTree) : Prop where
  workingDirectory : tree.workingDirectory = start.workingDirectory
  entries : ∀ location, tree.entries.get? location = start.entries.get? location ∨
    ∃ site content, site.Places location ∧ Saved start tree site content ∧
      ∃ app ∈ apps, app.WalksTo start site.path

/-- A successful run over some applications without a report document: the chunks that it
locates, and the tree that it leaves. -/
def RunOver (apps : List Application) (tree : FileTree) (chunks : List Chunk)
    (after : FileTree) : Prop :=
  ∃ (usageFile mergeTime : String) (reports : List AppReport) (settings : PruneSettings)
    (pool : Pool),
    loadReports tree usageFile apps = .ok reports ∧ chunks = Chunk.locate tree reports ∧
      Pool.Steps Engine.Any (.ofReports mergeTime reports) settings
        (.start (.ofTree tree) chunks) pool ∧
      pool.Finished ∧ pool.bench.tree = after

/-- Runs one after another, with all chunks that they locate. -/
inductive Runs (apps : List Application) : FileTree → List Chunk → FileTree → Prop
  | none (tree : FileTree) : Runs apps tree [] tree
  | more {tree middle after : FileTree} {located chunks : List Chunk}
      (before : Runs apps tree located middle) (run : RunOver apps middle chunks after) :
      Runs apps tree (located ++ chunks) after

/-! ## Trees that differ at saved chunks -/

/-- A chunk stays saved as long as its two files are as they are. -/
theorem Saved.congr {start tree after : FileTree} {site : Site} {content : ByteArray}
    (saved : Saved start tree site content)
    (chunkSame : after.entry? site.location = tree.entry? site.location)
    (backupSame : after.entry? site.backup = tree.entry? site.backup) :
    Saved start after site content :=
  ⟨saved.opened, saved.accepted, saved.original, saved.vacant, chunkSame ▸ saved.chunk,
    backupSame.trans saved.backup⟩

namespace Restorable

variable {apps : List Application} {start tree : FileTree}

theorem refl (apps : List Application) (tree : FileTree) : Restorable apps tree tree :=
  ⟨rfl, fun _ => Or.inl rfl⟩

theorem entry?_cases (restorable : Restorable apps start tree) (location : Location) :
    tree.entry? location = start.entry? location ∨
      ∃ site content, site.Places location ∧ Saved start tree site content ∧
        ∃ app ∈ apps, app.WalksTo start site.path := by
  cases location with
  | nil => exact Or.inl rfl
  | cons name rest => exact restorable.entries (name :: rest)

theorem entry?_of_saved {site : Site} {content : ByteArray} {location : Location}
    (saved : Saved start tree site content) (place : site.Places location) :
    (∃ now, tree.entry? location = some (.file now)) ∧
      start.entry? location ≠ some .directory := by
  rcases place with rfl | rfl
  · exact ⟨saved.chunk, by rw [saved.original]; simp⟩
  · exact ⟨⟨content, saved.backup⟩, by rw [saved.vacant]; simp⟩

theorem directory_iff (restorable : Restorable apps start tree) (location : Location) :
    tree.entry? location = some .directory ↔ start.entry? location = some .directory := by
  rcases restorable.entry?_cases location with same | ⟨site, content, place, saved, -⟩
  · rw [same]
  · obtain ⟨⟨now, found⟩, noDirectory⟩ := entry?_of_saved saved place
    constructor
    · intro isDirectory
      rw [found] at isDirectory
      cases isDirectory
    · intro isDirectory
      exact absurd isDirectory noDirectory

theorem linkFree (restorable : Restorable apps start tree) (linkFree : start.LinkFree) :
    tree.LinkFree := by
  intro location target found
  rcases restorable.entry?_cases location with same | ⟨site, content, place, saved, -⟩
  · exact linkFree location target (same ▸ found)
  · obtain ⟨⟨now, isFile⟩, -⟩ := entry?_of_saved saved place
    rw [isFile] at found
    cases found

/-- Both files of a site are as at the start, or its chunk is saved. -/
theorem site_cases (restorable : Restorable apps start tree) (site : Site) :
    tree.entry? site.location = start.entry? site.location ∧
        tree.entry? site.backup = start.entry? site.backup ∨
      ∃ content, Saved start tree site content := by
  have own : ∀ {location : Location}, site.Places location →
      tree.entry? location = start.entry? location ∨ ∃ content, Saved start tree site content := by
    intro location place
    rcases restorable.entry?_cases location with same | ⟨other, content, otherPlace, saved, -⟩
    · exact Or.inl same
    · exact Or.inr ⟨content, Site.eq_of_places otherPlace place ▸ saved⟩
  rcases own site.places_location with chunkSame | saved
  · rcases own site.places_backup with backupSame | saved
    · exact Or.inl ⟨chunkSame, backupSame⟩
    · exact Or.inr saved
  · exact Or.inr saved

end Restorable

/-! ## Runs keep trees restorable -/

/-- No path below the output directories of some applications is that of a backup. -/
def NoBackups (tree : FileTree) (apps : List Application) : Prop :=
  ∀ app ∈ apps, ∀ path ∈ tree.pathsBelow app.outputDir,
    Text.endsWith path.text (Chunk.extension ++ Chunk.backupSuffix) = false

/-- All directories below the output directories of some applications can be entered by the
paths that a walk spells. -/
def Enterable (tree : FileTree) (apps : List Application) : Prop :=
  ∀ app ∈ apps, ∀ below ∈ tree.entriesBelow app.outputDir, tree.barrier? below = none

theorem endsWith_backupName (site : Site) :
    Text.endsWith site.backupName (Chunk.extension ++ Chunk.backupSuffix) = true := by
  obtain ⟨front, name⟩ := Text.endsWith_iff.mp site.ending
  refine Text.endsWith_iff.mpr ⟨front, ?_⟩
  rw [Site.backupName, String.toList_append, String.toList_append, name, List.append_assoc]

theorem NoBackups.vacant {tree : FileTree} {apps : List Application} {app : Application}
    {site : Site} (noBackups : NoBackups tree apps) (member : app ∈ apps)
    (enters : tree.Enters app.outputDir) (within : app.outputDir.location <+: site.directory) :
    tree.entry? site.backup = none := by
  obtain ⟨names, split⟩ := within
  cases found : tree.entry? site.backup with
  | none => rfl
  | some entry =>
      have place : site.backup = app.outputDir.location ++ (names ++ [site.backupName]) := by
        rw [Site.backup, ← split, List.append_assoc]
      rw [tree.entry?_of_ne_nil site.backup_ne_nil, place] at found
      have listed : app.outputDir.spelled (names ++ [site.backupName]) ∈
          tree.pathsBelow app.outputDir := by
        refine List.mem_map.mpr ⟨(_, entry), ?_, rfl⟩
        exact (FileTree.mem_entriesBelow_iff enters).mpr ⟨_, by simp, rfl, found⟩
      have none := noBackups app member _ listed
      rw [Path.endsWith_spelled _ _ (endsWith_backupName site)] at none
      cases none

section Run

variable {apps : List Application} {start tree after : FileTree} {chunks : List Chunk}

/-- A chunk that a run locates: its site, which is below an output directory. -/
theorem exists_site_of_located {usageFile : String} {reports : List AppReport} {chunk : Chunk}
    (absolute : ∀ app ∈ apps, app.outputDir.isAbsolute = true) (linkFree : tree.LinkFree)
    (loaded : loadReports tree usageFile apps = .ok reports)
    (member : chunk ∈ Chunk.locate tree reports) :
    ∃ site slot, chunk.path = Site.path site ∧ tree.Holds site slot ∧
      ∃ app ∈ apps, tree.Enters app.outputDir ∧ app.outputDir.location <+: site.directory := by
  obtain ⟨report, reportMember, record, source⟩ := Chunk.from_of_mem_locate member
  obtain ⟨app, appMember, -, same, -⟩ := exists_text_of_loadReports loaded reportMember
  have appAbsolute := absolute app appMember
  obtain ⟨site, place, within⟩ := source.exists_site (same ▸ appAbsolute)
  have isDirectory := source.isDirectory
  have isFile := source.isFile
  rw [same] at within isDirectory
  rw [place] at isFile
  have enters : tree.Enters app.outputDir :=
    FileTree.enters_of_isDirectory linkFree appAbsolute isDirectory
  obtain ⟨own, slot, ownPlace, holds⟩ := FileTree.hasSite_of_isFile linkFree isFile
  obtain rfl : site = own := Site.path_injective ownPlace
  exact ⟨site, slot, place, holds, app, appMember, enters, within⟩

/-- A site before a run that works on it: the content at the start is not empty, and the files
are as at the start or saved. -/
theorem Restorable.pristine (restorable : Restorable apps start tree) (linkFree : start.LinkFree)
    {site : Site} {slot : Slot} (holds : tree.Holds site slot)
    (vacant : start.entry? site.backup = none) (filled : start.length site.path ≠ .ok 0) :
    ∃ content, start.Open [] site.directory ∧
      start.entry? site.location = some (.file content) ∧ content.size ≠ 0 ∧
      slot.Pristine content ∧
      (slot.backup = none ∨ FileTree.refusal? site.directory site.backupName = none) := by
  have opened : start.Open [] site.directory :=
    holds.opened.mono fun location => (restorable.directory_iff location).mp
  have reaches : start.Reaches site.path site.location :=
    FileTree.reaches_of_open linkFree site.directoryNames site.isName opened holds.accepted
  have nonempty : ∀ {content : ByteArray},
      start.entry? site.location = some (.file content) → content.size ≠ 0 := by
    intro content original empty
    rw [reaches.length_file original, empty] at filled
    exact filled rfl
  rcases restorable.site_cases site with ⟨chunkSame, backupSame⟩ | ⟨content, saved⟩
  · have original := chunkSame.symm.trans holds.chunk
    have noBackup : slot.backup = none :=
      holds.backup.symm.trans (backupSame.trans vacant)
    exact ⟨slot.chunk, opened, original, nonempty original, Or.inl ⟨noBackup, rfl⟩,
      Or.inl noBackup⟩
  · have present : slot.backup = some (.file content) := holds.backup.symm.trans saved.backup
    exact ⟨content, opened, saved.original, nonempty saved.original, Or.inr present,
      Or.inr saved.accepted⟩

/-- A site whose chunk a run has pruned is as at the start, or its chunk is saved. -/
theorem Restorable.saved_of_prunesGroup (restorable : Restorable apps start tree)
    (linkFree : start.LinkFree) {site : Site} {before slot : Slot}
    (holds : tree.Holds site before) (vacant : start.entry? site.backup = none)
    (filled : start.length site.path ≠ .ok 0) (ended : after.Holds site slot)
    {engines : Engine → Prop} {merged : MergedUsage} {settings : PruneSettings}
    {group : List NumberedChunk} {outcomes : List NumberedOutcome}
    (prunes : before.PrunesGroup engines merged settings site group slot outcomes) :
    (after.entry? site.location = start.entry? site.location ∧
        after.entry? site.backup = start.entry? site.backup) ∨
      ∃ content, Saved start after site content := by
  obtain ⟨content, opened, original, nonempty, pristine, accepted⟩ :=
    restorable.pristine linkFree holds vacant filled
  rcases prunes.pristine nonempty pristine with ⟨noBackup, chunk⟩ | present
  · have chunkSame := ended.chunk
    have backupSame := ended.backup
    rw [chunk] at chunkSame
    rw [noBackup] at backupSame
    exact Or.inl ⟨chunkSame.trans original.symm, backupSame.trans vacant.symm⟩
  · refine Or.inr ⟨content, opened, ?_, original, vacant, ⟨_, ended.chunk⟩, ?_⟩
    · cases refused : FileTree.refusal? site.directory site.backupName with
      | none => rfl
      | some cause =>
          rcases accepted with noBackup | accepted
          · rw [prunes.of_refused refused, noBackup] at present
            cases present
          · exact refused.symm.trans accepted
    · rw [ended.backup, present]

/-- What a run leaves at a site whose chunk it has pruned. -/
theorem Restorable.entries_pruned (restorable : Restorable apps start tree)
    (linkFree : start.LinkFree) (noBackups : NoBackups start apps) {app : Application}
    (member : app ∈ apps) (enters : tree.Enters app.outputDir) {site : Site}
    {before slot : Slot} (within : app.outputDir.location <+: site.directory)
    (holds : tree.Holds site before) (filled : start.length site.path ≠ .ok 0)
    (ended : after.Holds site slot) {engines : Engine → Prop} {merged : MergedUsage}
    {settings : PruneSettings} {group : List NumberedChunk} {outcomes : List NumberedOutcome}
    (prunes : before.PrunesGroup engines merged settings site group slot outcomes)
    {location : Location} (place : site.Places location) :
    after.entries.get? location = start.entries.get? location ∨
      ∃ content, Saved start after site content := by
  have startEnters : start.Enters app.outputDir :=
    enters.mono fun location => (restorable.directory_iff location).mp
  have vacant := noBackups.vacant member startEnters within
  rcases restorable.saved_of_prunesGroup linkFree holds vacant filled ended prunes with
    ⟨chunkSame, backupSame⟩ | saved
  · apply Or.inl
    rw [← after.entry?_of_ne_nil place.ne_nil, ← start.entry?_of_ne_nil place.ne_nil]
    rcases place with rfl | rfl
    · exact chunkSame
    · exact backupSame
  · exact Or.inr saved

/-- What a run leaves at a location where it has no work. -/
theorem Restorable.entries_unplanned (restorable : Restorable apps start tree) {plan : Plan}
    (evolves : tree.Evolves plan.Places after) {location : Location}
    (unplanned : ¬ plan.Places location) :
    after.entries.get? location = start.entries.get? location ∨
      ∃ site content, site.Places location ∧ Saved start after site content ∧
        ∃ app ∈ apps, app.WalksTo start site.path := by
  rcases evolves.entries location with same | ⟨-, there, -⟩
  · rw [same]
    rcases restorable.entries location with original | ⟨site, content, place, saved, walks⟩
    · exact Or.inl original
    · have outside : ∀ other, site.Places other → ¬ plan.Places other := by
        rintro other otherPlace ⟨group, member, groupPlace⟩
        obtain rfl := Site.eq_of_places otherPlace groupPlace
        exact unplanned ⟨group, member, place⟩
      have chunkSame := evolves.entry?_eq (outside _ site.places_location)
      have backupSame := evolves.entry?_eq (outside _ site.places_backup)
      exact Or.inr ⟨site, content, place, saved.congr chunkSame backupSame, walks⟩
  · exact absurd there unplanned

/-- A run leaves a tree restorable. -/
theorem Restorable.run (restorable : Restorable apps start tree) (linkFree : start.LinkFree)
    (absolute : ∀ app ∈ apps, app.outputDir.isAbsolute = true)
    (noBackups : NoBackups start apps) (run : RunOver apps tree chunks after)
    (filled : ∀ chunk ∈ chunks, start.length chunk.path ≠ .ok 0)
    (walked : ∀ chunk ∈ chunks, ∃ app ∈ apps, app.WalksTo start chunk.path) :
    Restorable apps start after := by
  obtain ⟨usageFile, mergeTime, reports, settings, pool, loaded, rfl, steps, finished, rfl⟩ := run
  have treeLinkFree := restorable.linkFree linkFree
  have located : ∀ chunk ∈ Chunk.locate tree reports, _ := fun chunk member =>
    exists_site_of_located absolute treeLinkFree loaded member
  have sited : ∀ chunk ∈ Chunk.locate tree reports, ∃ site : Site, chunk.path = site.path := by
    intro chunk member
    obtain ⟨site, slot, place, -⟩ := located chunk member
    exact ⟨site, place⟩
  obtain ⟨plan, covers, invariant⟩ := steps.exists_invariant treeLinkFree sited
  refine ⟨invariant.evolves.workingDirectory.trans restorable.workingDirectory, ?_⟩
  intro location
  by_cases planned : plan.Places location
  · obtain ⟨group, groupMember, groupPlace⟩ := planned
    obtain ⟨entry, entryMember, path⟩ := covers.exists_entry groupMember
    have listed : entry.2 ∈ Chunk.locate tree reports := mem_numbered entryMember
    obtain ⟨site, before, place, holds, app, appMember, enters, within⟩ :=
      located entry.2 listed
    obtain rfl : site = group.1 := Site.path_injective (place.symm.trans path)
    obtain ⟨slot, outcomes, ended, prunes⟩ :=
      steps.prunesGroup treeLinkFree sited finished holds
    have nonempty := filled entry.2 listed
    have walks := walked entry.2 listed
    rw [place] at nonempty walks
    rcases restorable.entries_pruned linkFree noBackups appMember enters within holds nonempty
      ended prunes groupPlace with same | ⟨content, saved⟩
    · exact Or.inl same
    · exact Or.inr ⟨group.1, content, groupPlace, saved, walks⟩
  · exact restorable.entries_unplanned invariant.evolves planned

/-- Runs leave a tree restorable. -/
theorem Runs.restorable (runs : Runs apps start chunks after) (linkFree : start.LinkFree)
    (absolute : ∀ app ∈ apps, app.outputDir.isAbsolute = true)
    (noBackups : NoBackups start apps)
    (filled : ∀ chunk ∈ chunks, start.length chunk.path ≠ .ok 0)
    (walked : ∀ chunk ∈ chunks, ∃ app ∈ apps, app.WalksTo start chunk.path) :
    Restorable apps start after := by
  induction runs with
  | none => exact .refl apps start
  | more before run inductionHypothesis =>
      have middle := inductionHypothesis
        (fun chunk member => filled chunk (List.mem_append_left _ member))
        (fun chunk member => walked chunk (List.mem_append_left _ member))
      exact middle.run linkFree absolute noBackups run
        (fun chunk member => filled chunk (List.mem_append_right _ member))
        (fun chunk member => walked chunk (List.mem_append_right _ member))

end Run

end ChunkPrune
