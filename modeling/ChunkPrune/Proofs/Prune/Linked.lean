import ChunkPrune.Proofs.FileTree.OnDisk
import ChunkPrune.Proofs.Prune.Conservation

/-!
# What a batch writes in a tree with links

A chunk is opened through the links on its way, and so is the directory for its backup. So a
batch writes the files that the paths of its chunks lead to, and backups in the directories that
their directories lead to, which may be anywhere on the disk.
-/

namespace ChunkPrune

/-- The chunk of a path stands at a site: links on the way to its directory are followed. The
chunk itself may be a link. -/
def FileTree.StandsAt (tree : FileTree) (path : Path) (site : Site) : Prop :=
  ∃ spelled : Site, path = spelled.path ∧ site.name = spelled.name ∧
    tree.lookup true (FileTree.pathOf spelled.directory) = .ok (site.directory, .directory)

/-- A place where a batch over some chunks may write: the file that a chunk leads to, or the
backup beside a chunk. -/
def FileTree.Written (tree : FileTree) (chunks : List Chunk) (location : Location) : Prop :=
  ∃ chunk ∈ chunks, (∃ content, tree.lookup true chunk.path = .ok (location, .file content)) ∨
    ∃ site, tree.StandsAt chunk.path site ∧ location = site.backup

/-- A batch over chunks has written where it may. -/
structure FileTree.WrittenFor (start : FileTree) (chunks : List Chunk) (tree : FileTree) :
    Prop where
  evolves : start.Evolves (start.Written chunks) tree
  onDisk : tree.OnDisk

section Moves

variable {start : FileTree} {chunks : List Chunk} {chunk : Chunk} {bench after : Workbench}
  {tree : FileTree}

theorem FileTree.WrittenFor.put {follow : Bool} {path : Path} {place : Place}
    {location : Location} (written : start.WrittenFor chunks tree)
    (resolved : tree.resolve follow path = .ok place) (takes : TakesEntry location place)
    (allowed : start.Written chunks location) (content : ByteArray) :
    start.WrittenFor chunks (tree.put location (.file content)) := by
  obtain ⟨onDisk, evolves⟩ := written.onDisk.put_file resolved takes content
  exact ⟨written.evolves.trans (evolves allowed), onDisk⟩

/-- Where the path of a chunk leads during a batch is written. -/
theorem FileTree.WrittenFor.of_chunk {place : Place} {location : Location}
    (written : start.WrittenFor chunks tree) (member : chunk ∈ chunks)
    (isFile : start.isFile chunk.path = true)
    (resolved : tree.resolve true chunk.path = .ok place) (takes : TakesFile location place) :
    start.Written chunks location := by
  obtain ⟨text, walked⟩ := resolve_eq_ok_iff.mp resolved
  rw [written.evolves.workingDirectory] at walked
  rcases (route_of_walk walked).file_of_evolves written.evolves takes with
    allowed | ⟨before, route, takes⟩
  · exact allowed
  · obtain ⟨there, content, found⟩ := isFile_iff.mp isFile
    obtain ⟨-, reached⟩ := resolve_eq_ok_iff.mp (lookup_eq_ok_iff.mp found)
    have same := (route_of_walk reached).unique route
    rw [← same] at takes
    cases takes
    exact ⟨chunk, member, Or.inl ⟨content, found⟩⟩

/-- Where the path of a backup leads during a batch, the backup of a chunk may be written. -/
theorem FileTree.WrittenFor.of_backup {place : Place} {location : Location}
    (written : start.WrittenFor chunks tree) (startOnDisk : start.OnDisk)
    (member : chunk ∈ chunks) (sited : ∃ site : Site, chunk.path = site.path)
    (resolved : tree.resolve false (Chunk.backupPath chunk.path) = .ok place)
    (takes : TakesEntry location place) : start.Written chunks location := by
  obtain ⟨spelled, path⟩ := sited
  rw [path, spelled.backupPath_path, Site.backup] at resolved
  obtain ⟨there, found, rfl⟩ := exists_directory_of_resolve spelled.directoryNames
    spelled.isName_backupName resolved takes
  have before := written.evolves.lookup_directory found
  have isDirectory := startOnDisk.isDirectory_of_lookup before
  let site : Site := ⟨there, spelled.name,
    fun name inside => (startOnDisk.names _ _ isDirectory name inside).isName, spelled.isName,
    spelled.ending⟩
  exact ⟨chunk, member, Or.inr ⟨site, ⟨spelled, path, rfl, before⟩, rfl⟩⟩

theorem BackupMove.written {own own' : Option Nat}
    (move : BackupMove (Chunk.backupPath chunk.path) bench own after own')
    (startOnDisk : start.OnDisk) (member : chunk ∈ chunks)
    (sited : ∃ site : Site, chunk.path = site.path)
    (written : start.WrittenFor chunks bench.tree) : start.WrittenFor chunks after.tree := by
  cases move with
  | stay => exact written
  | create directory => exact written
  | append own staged => exact written
  | discard own => exact written
  | publish own staged tree named =>
      obtain ⟨place, location, resolved, takes, rfl⟩ :
          ∃ place location,
            bench.tree.resolve false (Chunk.backupPath chunk.path) = .ok place ∧
              FileTree.TakesEntry location place ∧
              tree = bench.tree.put location (.file staged.content) :=
        named.elim FileTree.exists_place_of_placeNew FileTree.exists_place_of_replaceAt
      exact written.put resolved takes
        (written.of_backup startOnDisk member sited resolved takes) _

theorem PruneMove.written {job : PruneJob} {stage : PruneStage} {own : Option Nat}
    (move : PruneMove job bench stage after own) (startOnDisk : start.OnDisk)
    (member : job.chunk ∈ chunks) (sited : ∃ site : Site, job.chunk.path = site.path)
    (isFile : start.isFile job.chunk.path = true)
    (written : start.WrittenFor chunks bench.tree) : start.WrittenFor chunks after.tree := by
  cases move with
  | stay silent => exact written
  | ask source => exact written
  | backup draft move => exact move.written startOnDisk member sited written
  | chunk silent tree changed =>
      obtain ⟨place, location, content, resolved, takes, rfl⟩ :
          ∃ place location content, bench.tree.resolve true job.chunk.path = .ok place ∧
            FileTree.TakesFile location place ∧
            tree = bench.tree.put location (.file content) := by
        rcases changed with emptied | ⟨piece, grown⟩
        · obtain ⟨place, location, resolved, takes, shape⟩ :=
            FileTree.exists_place_of_writeFile emptied
          exact ⟨place, location, _, resolved, takes, shape⟩
        · exact FileTree.exists_place_of_appendFile grown
      exact written.put resolved takes.takesEntry
        (written.of_chunk member isFile resolved takes) content

end Moves

/-! ## A batch -/

namespace Pool

variable {engines : Engine → Prop} {merged : MergedUsage} {settings : PruneSettings}
  {tree : FileTree} {chunks : List Chunk} {bench : Workbench} {pool : Pool}

/-- The chunk that a task works on is one of the batch. -/
theorem Steps.mem_of_current (steps : Steps engines merged settings (.start bench chunks) pool)
    {index : Nat} {task : GroupTask} (found : pool.tasks[index]? = some task) {item : WorkItem}
    (current : task.current = some item) : item.job.chunk ∈ chunks := by
  obtain ⟨within, rfl⟩ := List.getElem?_eq_some_iff.mp found
  obtain ⟨sameLength, handles⟩ := List.forall₂_iff_get.mp steps.handles
  have inGroups : index < (pathGroups chunks).length := sameLength ▸ within
  obtain ⟨-, settled, shape, -⟩ := handles index inGroups within
  have inGroup : (item.number, item.job.chunk) ∈ (pathGroups chunks).get ⟨index, inGroups⟩ := by
    rw [shape, GroupTask.atHand, List.get_eq_getElem, current]
    simp
  have listed : (item.number, item.job.chunk) ∈ numbered chunks :=
    (flatten_pathGroups_perm chunks).mem_iff.mp
      (List.mem_flatten.mpr ⟨_, List.get_mem _ _, inGroup⟩)
  exact mem_numbered listed

/-- A batch writes the files of its chunks and their backups only. -/
theorem Steps.written (steps : Steps engines merged settings (.start (.ofTree tree) chunks) pool)
    (onDisk : tree.OnDisk) (sited : ∀ chunk ∈ chunks, ∃ site : Site, chunk.path = site.path)
    (files : ∀ chunk ∈ chunks, tree.isFile chunk.path = true) :
    tree.WrittenFor chunks pool.bench.tree := by
  induction steps with
  | refl => exact ⟨.refl _ _, onDisk⟩
  | tail before step inductionHypothesis =>
      obtain ⟨allowed, found⟩ := step
      rcases GroupTask.step_cases merged settings _ _ _ with
        ⟨same, -⟩ | ⟨item, current, -, stepped⟩
      · rw [same]
        exact inductionHypothesis
      · have member := mem_of_current before found current
        rw [stepped]
        exact (PruneStage.step_move (item.job.withEngine _) none _ item.stage).written onDisk
          member (sited _ member) (files _ member) inductionHypothesis

end Pool

end ChunkPrune
