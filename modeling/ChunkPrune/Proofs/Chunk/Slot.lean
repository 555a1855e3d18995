import ChunkPrune.Proofs.Chunk.Site
import ChunkPrune.Proofs.FileTree.Evolves

/-!
# The two files of a site

In a tree without links, the work on a chunk sees and changes two things only: the chunk and
what stands at the place of its backup. Every chunk that is located for an absolute output
directory stands at a site.
-/

namespace ChunkPrune

/-- The content of a chunk, and what stands at the place of its backup. -/
structure Slot where
  chunk : ByteArray
  backup : Option Entry

/-- The chunk of a site is there, and the files of the site are those of a slot. -/
structure FileTree.Holds (tree : FileTree) (site : Site) (slot : Slot) : Prop where
  opened : tree.Open [] site.directory
  accepted : refusal? site.directory site.name = none
  chunk : tree.entry? site.location = some (.file slot.chunk)
  backup : tree.entry? site.backup = slot.backup

namespace FileTree

variable {tree : FileTree} {site : Site} {slot : Slot}

namespace Holds

/-- The files of a site are those of one slot only. -/
theorem unique {other : Slot} (holds : tree.Holds site slot) (holds' : tree.Holds site other) :
    slot = other := by
  have chunks := holds.chunk.symm.trans holds'.chunk
  have backups := holds.backup.symm.trans holds'.backup
  cases slot
  cases other
  cases chunks
  cases backups
  rfl

theorem backup_cases (holds : tree.Holds site slot) (linkFree : tree.LinkFree) :
    slot.backup = none ∨ slot.backup = some .directory ∨
      ∃ content, slot.backup = some (.file content) := by
  rw [← holds.backup]
  exact linkFree.entry?_cases site.backup

theorem put_backup (holds : tree.Holds site slot) (noDirectory : slot.backup ≠ some .directory)
    (content : ByteArray) :
    (tree.put site.backup (.file content)).Holds site
      { slot with backup := some (.file content) } := by
  have evolves : tree.Evolves (fun other => other = site.backup)
      (tree.put site.backup (.file content)) := by
    refine .put site.backup_ne_nil ?_ (by rw [holds.backup]; exact noDirectory) content
    rfl
  refine ⟨evolves.opened holds.opened, holds.accepted, ?_, ?_⟩
  · rw [← holds.chunk]
    exact evolves.entry?_eq (Site.location_ne_backup site site)
  · rw [entry?_of_ne_nil _ site.backup_ne_nil, entries_get?_put, if_pos rfl]

theorem put_chunk (holds : tree.Holds site slot) (content : ByteArray) :
    (tree.put site.location (.file content)).Holds site { slot with chunk := content } := by
  have noDirectory : tree.entry? site.location ≠ some .directory := by simp [holds.chunk]
  have evolves : tree.Evolves (fun other => other = site.location)
      (tree.put site.location (.file content)) := by
    refine .put site.location_ne_nil ?_ noDirectory content
    rfl
  refine ⟨evolves.opened holds.opened, holds.accepted, ?_, ?_⟩
  · rw [entry?_of_ne_nil _ site.location_ne_nil, entries_get?_put, if_pos rfl]
  · rw [← holds.backup]
    exact evolves.entry?_eq fun same => Site.location_ne_backup site site same.symm

/-- Files written at other places do not matter for a site. -/
theorem of_evolves (holds : tree.Holds site slot) {places : Location → Prop} {after : FileTree}
    (evolves : tree.Evolves places after) (chunkOutside : ¬ places site.location)
    (backupOutside : ¬ places site.backup) : after.Holds site slot :=
  ⟨evolves.opened holds.opened, holds.accepted,
    (evolves.entry?_eq chunkOutside).trans holds.chunk,
    (evolves.entry?_eq backupOutside).trans holds.backup⟩

theorem reaches (holds : tree.Holds site slot) (linkFree : tree.LinkFree) :
    tree.Reaches site.path site.location :=
  reaches_of_open linkFree site.directoryNames site.isName holds.opened holds.accepted

theorem reaches_backup (holds : tree.Holds site slot) (linkFree : tree.LinkFree)
    (accepted : refusal? site.directory site.backupName = none) :
    tree.Reaches (Chunk.backupPath site.path) site.backup := by
  rw [site.backupPath_path]
  exact reaches_of_open linkFree site.directoryNames site.isName_backupName holds.opened accepted

theorem backup_refused (holds : tree.Holds site slot) (linkFree : tree.LinkFree) (follow : Bool)
    {cause : OsError} (refused : refusal? site.directory site.backupName = some cause) :
    tree.resolve follow (Chunk.backupPath site.path) = .error cause := by
  rw [site.backupPath_path, Site.backup, resolve_of_open linkFree follow site.directoryNames
    site.isName_backupName holds.opened, refused]

end Holds

/-- A chunk at its site, in a tree where it is there. -/
def HasSite (tree : FileTree) (path : Path) : Prop :=
  ∃ (site : Site) (slot : Slot), path = site.path ∧ tree.Holds site slot

theorem HasSite.evolves {tree after : FileTree} {path : Path} {places : Location → Prop}
    (there : tree.HasSite path) (evolves : tree.Evolves places after) : after.HasSite path := by
  obtain ⟨site, slot, place, holds⟩ := there
  obtain ⟨content, chunk⟩ := evolves.file holds.chunk
  exact ⟨site, ⟨content, after.entry? site.backup⟩, place, evolves.opened holds.opened,
    holds.accepted, chunk, rfl⟩

/-- A path of a site that leads to a file. -/
theorem hasSite_of_isFile (linkFree : tree.LinkFree) (isFile : tree.isFile site.path = true) :
    tree.HasSite site.path := by
  obtain ⟨location, content, found⟩ := isFile_iff.mp isFile
  have resolved := lookup_eq_ok_iff.mp found
  obtain ⟨opened, accepted⟩ := open_of_resolve linkFree site.directoryNames site.isName resolved
  have reaches : tree.Reaches site.path site.location :=
    reaches_of_open linkFree site.directoryNames site.isName opened accepted
  rw [reaches true] at resolved
  obtain ⟨rfl, chunk⟩ := placeAt_eq_occupied (Except.ok.inj resolved)
  exact ⟨site, ⟨content, tree.entry? site.backup⟩, rfl, opened, accepted, chunk, rfl⟩

end FileTree

namespace Chunk

variable {tree : FileTree} {reports : List AppReport} {chunk : Chunk}

/-- Where a located chunk comes from. -/
structure From (tree : FileTree) (report : AppReport) (record : LibraryRecord)
    (chunk : Chunk) : Prop where
  isDirectory : tree.isDirectory report.outputDir = true
  library : (chunk.library, record) ∈ report.report.libraries.entries
  characteristics : record.characteristics = some chunk.characteristics
  app : chunk.app = report.app
  listed : ∃ files, chunk.characteristics.files? = some files ∧ chunk.fileName ∈ files
  target : isTarget chunk.fileName = true
  resolved : resolvePath? report.outputDir chunk.fileName = some chunk.path
  isFile : tree.isFile chunk.path = true

theorem locateFile?_eq_some {report : AppReport} {library : String}
    {characteristics : Characteristics} {fileName : String}
    (located : locateFile? tree report library characteristics fileName = some chunk) :
    isTarget fileName = true ∧ resolvePath? report.outputDir fileName = some chunk.path ∧
      tree.isFile chunk.path = true ∧
      chunk = ⟨chunk.path, report.app, fileName, library, characteristics⟩ := by
  rw [locateFile?] at located
  split at located
  next target =>
    split at located
    next path resolved =>
      split at located
      next isFile =>
        cases located
        exact ⟨target, resolved, isFile, rfl⟩
      · cases located
    · cases located
  · cases located

theorem from_of_mem_locate (member : chunk ∈ locate tree reports) :
    ∃ report ∈ reports, ∃ record, From tree report record chunk := by
  obtain ⟨report, reportMember, member⟩ := List.mem_flatMap.mp member
  split at member
  next isDirectory =>
    obtain ⟨⟨library, record⟩, entry, member⟩ := List.mem_flatMap.mp member
    rw [locateLibrary] at member
    split at member
    · exact absurd member List.not_mem_nil
    next characteristics recorded =>
      split at member
      · exact absurd member List.not_mem_nil
      next files listed =>
        obtain ⟨fileName, fileMember, located⟩ := List.mem_filterMap.mp member
        obtain ⟨target, resolved, isFile, shape⟩ := locateFile?_eq_some located
        rw [shape]
        exact ⟨report, reportMember, record, isDirectory, entry, recorded, rfl,
          ⟨files, listed, fileMember⟩, target, resolved, isFile⟩
  · exact absurd member List.not_mem_nil

theorem From.exists_site {report : AppReport} {record : LibraryRecord}
    (source : From tree report record chunk) (absolute : report.outputDir.isAbsolute = true) :
    ∃ site : Site, chunk.path = site.path ∧ report.outputDir.location <+: site.directory :=
  exists_site_of_resolvePath? absolute source.target source.resolved

theorem hasSite_of_mem_locate (linkFree : tree.LinkFree)
    (absolute : ∀ report ∈ reports, report.outputDir.isAbsolute = true)
    (member : chunk ∈ locate tree reports) : tree.HasSite chunk.path := by
  obtain ⟨report, reportMember, record, source⟩ := from_of_mem_locate member
  obtain ⟨site, place, -⟩ := source.exists_site (absolute report reportMember)
  have isFile := source.isFile
  rw [place] at isFile ⊢
  exact FileTree.hasSite_of_isFile linkFree isFile

end Chunk

end ChunkPrune
