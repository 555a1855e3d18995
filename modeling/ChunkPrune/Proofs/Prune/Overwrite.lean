import ChunkPrune.Proofs.FileTree.Links
import ChunkPrune.Proofs.Prune.Faults
import ChunkPrune.Proofs.Prune.Order

/-!
# What stands at the path of the backup when a chunk was overwritten

A chunk is overwritten when a backup was made, or when the length of what stands at the path of
the backup says that there is one. A directory has a length as well, and so has the chunk itself,
when a link leads to it. In these two cases, and in no others, the chunk is overwritten without a
backup of what it was.
-/

namespace ChunkPrune

namespace FileTree

variable {tree : FileTree} {path : Path} {content : ByteArray} {text : String}

theorem readBytes_eq_ok_iff :
    tree.readBytes path = .ok content ↔
      ∃ location, tree.lookup true path = .ok (location, .file content) := by
  rw [readBytes]
  constructor
  · intro read
    split at read
    next location other found =>
      cases read
      exact ⟨location, found⟩
    · cases read
    · cases read
  · rintro ⟨location, found⟩
    rw [found]

theorem readText_eq_ok_iff :
    tree.readText path = .ok text ↔ tree.readBytes path = .ok text.toUTF8 := by
  constructor
  · intro read
    exact readBytes_eq_ok_iff.mpr (lookup_of_readText read)
  · intro read
    rw [readText, read]
    simp only [Text.fromUTF8?_eq_some_iff.mpr rfl]

theorem pathExists_of_lookup {location : Location} {entry : Entry}
    (found : tree.lookup true path = .ok (location, entry)) : tree.pathExists path = true := by
  rw [pathExists, found]

theorem length_of_lookup_file {location : Location}
    (found : tree.lookup true path = .ok (location, .file content)) :
    tree.length path = .ok content.size := by
  rw [length, found]

theorem length_of_lookup_directory {location : Location}
    (found : tree.lookup true path = .ok (location, .directory)) :
    tree.length path = .ok directoryLength := by
  rw [length, found]

/-- A path with a length leads to a directory or to a file. -/
theorem lookup_of_length {length : Nat} (measured : tree.length path = .ok length) :
    (∃ location, tree.lookup true path = .ok (location, .directory)) ∨
      ∃ location content, tree.lookup true path = .ok (location, .file content) := by
  cases found : tree.lookup true path with
  | error cause =>
      rw [FileTree.length, found] at measured
      cases measured
  | ok pair =>
      obtain ⟨location, entry⟩ := pair
      cases entry with
      | directory => exact Or.inl ⟨location, rfl⟩
      | file content => exact Or.inr ⟨location, content, rfl⟩
      | link target =>
          obtain ⟨-, walked⟩ := resolve_eq_ok_iff.mp (lookup_eq_ok_iff.mp found)
          exact absurd rfl (route_of_walk walked).not_link

end FileTree

/-- What became of the backup of a chunk with a text that was overwritten. -/
structure BackedUp (path : Path) (text : String) (before after : FileTree) : Prop where
  read : before.readText path = .ok text
  /-- The path of the backup is that of a file, unless a directory stands there. -/
  isFile_iff : after.isFile (Chunk.backupPath path) = true ↔
    before.isDirectory (Chunk.backupPath path) = false
  /-- Where nothing was or an empty file, while the chunk was not empty, the backup has the text. -/
  fresh : before.pathExists (Chunk.backupPath path) = false ∨
    before.length (Chunk.backupPath path) = .ok 0 ∧ text ≠ "" →
      after.readText (Chunk.backupPath path) = .ok text
  /-- Another file has its content still, unless it is the chunk itself and this one changed. -/
  former : ∀ content, before.readBytes (Chunk.backupPath path) = .ok content →
    (content.size = 0 → text = "") →
      (after.readBytes (Chunk.backupPath path) = .ok content ↔
        ¬ before.SameFile path (Chunk.backupPath path) ∨ after.readText path = .ok text)

section BackedUp

variable {tree : FileTree} {path : Path} {text : String} {location there : Location}
  {content : ByteArray}

/-- A directory at the path of the backup is there still. -/
theorem backedUp_of_directory
    (found : tree.lookup true path = .ok (location, .file text.toUTF8))
    (former : tree.lookup true (Chunk.backupPath path) = .ok (there, .directory)) :
    BackedUp path text tree (tree.put location (.file content)) := by
  have backup : (tree.put location (.file content)).lookup true (Chunk.backupPath path) =
      .ok (there, .directory) :=
    FileTree.lookup_put_aside former
      (FileTree.deadEnd_of_file (FileTree.entry?_of_lookup_file found) _) (Or.inl rfl) _
  refine ⟨FileTree.readText_eq_ok_iff.mpr (FileTree.readBytes_eq_ok_iff.mpr ⟨_, found⟩),
    iff_of_false ?_ ?_, ?_, ?_⟩
  · rw [FileTree.isFile, backup]
    exact Bool.false_ne_true
  · rw [FileTree.isDirectory, former]
    simp
  · rintro (nothing | ⟨empty, -⟩)
    · cases nothing.symm.trans (FileTree.pathExists_of_lookup former)
    · cases empty.symm.trans (FileTree.length_of_lookup_directory former)
  · intro bytes read
    rw [FileTree.readBytes, former] at read
    cases read

/-- A file at the path of the backup has its content still, unless it is the chunk. -/
theorem backedUp_of_file {bytes : ByteArray}
    (found : tree.lookup true path = .ok (location, .file text.toUTF8))
    (former : tree.lookup true (Chunk.backupPath path) = .ok (there, .file bytes))
    (settled : ¬ (bytes.size = 0 ∧ text ≠ "")) :
    BackedUp path text tree (tree.put location (.file content)) := by
  have chunk : (tree.put location (.file content)).lookup true path =
      .ok (location, .file content) :=
    FileTree.lookup_put (FileTree.lookup_eq_ok_iff.mp found) (.file _) content
  have stands := FileTree.entry?_of_lookup_file found
  have backup : (tree.put location (.file content)).lookup true (Chunk.backupPath path) =
      .ok (there, .file (if there = location then content else bytes)) := by
    split
    next same =>
      rw [same] at former ⊢
      exact FileTree.lookup_put (FileTree.lookup_eq_ok_iff.mp former) (.file _) content
    next aside =>
      exact FileTree.lookup_put_aside former (FileTree.deadEnd_of_file stands _) (Or.inr aside) _
  refine ⟨FileTree.readText_eq_ok_iff.mpr (FileTree.readBytes_eq_ok_iff.mpr ⟨_, found⟩),
    iff_of_true (FileTree.isFile_iff.mpr ⟨_, _, backup⟩) ?_, ?_, ?_⟩
  · rw [FileTree.isDirectory, former]
  · rintro (nothing | ⟨empty, nonempty⟩)
    · cases nothing.symm.trans (FileTree.pathExists_of_lookup former)
    · rw [FileTree.length_of_lookup_file former] at empty
      exact absurd ⟨Except.ok.inj empty, nonempty⟩ settled
  · intro other read _
    have same : other = bytes := by
      rw [FileTree.readBytes, former] at read
      exact (Except.ok.inj read).symm
    subst same
    rw [FileTree.readText_eq_ok_iff, FileTree.readBytes, FileTree.readBytes, backup, chunk]
    by_cases here : there = location
    · -- the path of the backup leads to the chunk, so the text was in both
      have whole : other = text.toUTF8 := by
        rw [here] at former
        exact Entry.file.inj (Option.some.inj
          ((FileTree.entry?_of_lookup_file former).symm.trans stands))
      have one : tree.SameFile path (Chunk.backupPath path) :=
        ⟨location, text.toUTF8, found, by rw [former, here, whole]⟩
      rw [if_pos here, whole]
      simp [one]
    · have apart : ¬ tree.SameFile path (Chunk.backupPath path) := by
        rintro ⟨shared, bytes, first, second⟩
        rw [found] at first
        rw [former] at second
        cases first
        cases second
        exact here rfl
      simp [here, apart]

/-- A new backup has the text. -/
theorem backedUp_of_given {given : FileTree}
    (found : tree.lookup true path = .ok (location, .file text.toUTF8))
    (gives : tree.Given (Chunk.backupPath path) text.toUTF8 there given) :
    BackedUp path text tree (given.put location (.file content)) := by
  have kept := gives.lookup_other (by decide) (by decide) found id
  have elsewhere : there ≠ location :=
    (gives.ne_of_file (FileTree.entry?_of_lookup_file found) id).symm
  have backup : (given.put location (.file content)).lookup true (Chunk.backupPath path) =
      .ok (there, .file text.toUTF8) :=
    FileTree.lookup_put_aside (gives.lookup (by decide) (by decide))
      (FileTree.deadEnd_of_file (FileTree.entry?_of_lookup_file kept) _) (Or.inr elsewhere) _
  refine ⟨FileTree.readText_eq_ok_iff.mpr (FileTree.readBytes_eq_ok_iff.mpr ⟨_, found⟩),
    iff_of_true (FileTree.isFile_iff.mpr ⟨_, _, backup⟩) ?_,
    fun _ => FileTree.readText_eq_ok_iff.mpr (FileTree.readBytes_eq_ok_iff.mpr ⟨_, backup⟩), ?_⟩
  · rw [Bool.eq_false_iff]
    intro isDirectory
    obtain ⟨other, former⟩ := FileTree.isDirectory_iff.mp isDirectory
    rcases gives.free_or_empty with nothing | ⟨empty, -⟩
    · cases nothing.symm.trans (FileTree.pathExists_of_lookup former)
    · cases empty.symm.trans (FileTree.length_of_lookup_directory former)
  · intro bytes read empties
    obtain ⟨other, former⟩ := FileTree.readBytes_eq_ok_iff.mp read
    rcases gives.free_or_empty with nothing | ⟨empty, filled⟩
    · cases nothing.symm.trans (FileTree.pathExists_of_lookup former)
    · rw [FileTree.length_of_lookup_file former] at empty
      rw [empties (Except.ok.inj empty)] at filled
      exact absurd rfl filled

end BackedUp

/-- Whenever a chunk was overwritten, this became of its backup. -/
theorem BackupJob.Overwritten.backedUp {job : BackupJob} {start bench : Workbench}
    (overwritten : job.Overwritten start bench) :
    BackedUp job.chunk job.text start.tree bench.tree := by
  obtain ⟨saved, written, location, content, found, ended, shape⟩ := overwritten
  rw [shape]
  cases ended with
  | written there staged given => exact backedUp_of_given found given
  | kept same length measured settled =>
      rw [same.tree]
      rcases FileTree.lookup_of_length measured with ⟨there, former⟩ | ⟨there, bytes, former⟩
      · exact backedUp_of_directory found former
      · refine backedUp_of_file found former fun empty => settled ⟨?_, empty.2⟩
        rw [FileTree.length_of_lookup_file former] at measured
        exact (Except.ok.inj measured).symm.trans empty.1

/-- When a chunk is pruned, whatever stands in the tree and whatever faults hit the steps: there is
a file at the path of its backup unless a directory was there. A backup that was missing or empty
has the text of the chunk, and another one has its content still, unless the path of the backup
leads to the chunk. -/
theorem Chunk.backedUp_of_pruned (merged : MergedUsage) (settings : PruneSettings) (chunk : Chunk)
    (start : Workbench) (result : PruneResult) :
    (∀ after, (chunk.begin merged settings).1.Course (fun _ => True)
        (start, (chunk.begin merged settings).2) (after, .done (.pruned result)) →
      ∃ text, BackedUp chunk.path text start.tree after.tree) ∧
    ((chunk.prune merged settings start).2 = .pruned result →
      ∃ text, BackedUp chunk.path text start.tree (chunk.prune merged settings start).1.tree) := by
  have backed : ∀ after, (chunk.begin merged settings).1.Course (fun _ => True)
      (start, (chunk.begin merged settings).2) (after, .done (.pruned result)) →
      ∃ text, BackedUp chunk.path text start.tree after.tree := by
    intro after course
    obtain ⟨draft, overwritten⟩ :=
      course.holds (chunk.holds_begin merged settings False start) False.elim
    exact ⟨_, overwritten.backedUp⟩
  refine ⟨backed, fun pruned => backed _ ?_⟩
  have course := PruneStage.course_run (chunk.begin merged settings).1 (fun _ => True) start
    (chunk.begin merged settings).2
  rwa [show ((chunk.begin merged settings).2.run (chunk.begin merged settings).1 start).2 =
    .pruned result from pruned] at course

/-! ## A directory in the place of the backup -/

/-- The tree with one chunk, and with a directory in the place of its backup. -/
def occupiedTree : FileTree := (loneTree "a".toUTF8).put loneSite.backup .directory

theorem linkFree_occupiedTree : occupiedTree.LinkFree := by
  intro location target found
  by_cases same : loneSite.backup = location
  · rw [← same, occupiedTree, FileTree.entry?_put_self loneSite.backup_ne_nil] at found
    cases found
  · rw [occupiedTree, FileTree.entry?_put_of_ne same] at found
    exact linkFree_loneTree _ _ _ found

theorem holds_occupiedTree : occupiedTree.Holds loneSite ⟨"a".toUTF8, some .directory⟩ :=
  ⟨⟨by decide, rfl, trivial⟩, by decide, rfl, rfl⟩

theorem prune_occupiedTree :
    ∃ result, ((loneChunk loneSite).prune loneUsage steadySettings (.ofTree occupiedTree)).2 =
      .pruned result := by
  have atPath : (loneChunk loneSite).path = loneSite.path := rfl
  have linkFree : (Workbench.ofTree occupiedTree).tree.LinkFree := linkFree_occupiedTree
  have holds : (Workbench.ofTree occupiedTree).tree.Holds loneSite
      ⟨"a".toUTF8, some .directory⟩ := holds_occupiedTree
  obtain ⟨-, -, outcome⟩ := Chunk.prune_eq loneUsage steadySettings linkFree holds atPath
  have begun := begin_loneChunk keepFlags_loneUsage steadySettings loneSite
  rw [outcome, Slot.prune, begun, Slot.finish, Text.fromUTF8?_eq_some_iff.mpr rfl]
  show ∃ result, (Slot.conclude _ loneJob loneSite (loneJob.verdict "a" (.ok sourceAnswer))).2 = _
  rw [verdict_loneJob]
  exact ⟨_, rfl⟩

/-- The chunk is pruned, and nothing at the path of its backup can be read. -/
theorem backedUp_occupiedTree :
    ∃ result, ((loneChunk loneSite).prune loneUsage steadySettings (.ofTree occupiedTree)).2 =
        .pruned result ∧
      ((loneChunk loneSite).prune loneUsage steadySettings (.ofTree occupiedTree)).1.tree.isFile
        (Chunk.backupPath loneSite.path) = false := by
  obtain ⟨result, pruned⟩ := prune_occupiedTree
  obtain ⟨text, backed⟩ := (Chunk.backedUp_of_pruned loneUsage steadySettings (loneChunk loneSite)
    (.ofTree occupiedTree) result).2 pruned
  have isDirectory : occupiedTree.isDirectory (Chunk.backupPath loneSite.path) = true := by
    have accepted : FileTree.refusal? loneSite.directory loneSite.backupName = none := by decide
    rw [FileTree.isDirectory, holds_occupiedTree.lookup_backup linkFree_occupiedTree,
      Slot.backupPlace, accepted]
  refine ⟨result, pruned, Bool.eq_false_iff.mpr fun isFile => ?_⟩
  have noDirectory := backed.isFile_iff.mp isFile
  exact absurd (isDirectory.symm.trans noDirectory) (by decide)

end ChunkPrune
