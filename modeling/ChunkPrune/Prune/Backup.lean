import ChunkPrune.Chunk
import ChunkPrune.Prune.Workbench

/-!
# Backups

Before a chunk is pruned for the first time, its text is kept beside it. The text
is written to a staged file, which gets the name of the backup only when it is
complete, and only when the name is free. A backup that is already there stays, unless
it is empty and the text is not.
-/

namespace ChunkPrune

/-- The result of making a backup: whether one was written, or why it failed. -/
abbrev BackupResult := Except Failure Bool

/-- How far the making of a backup has come. -/
inductive BackupStage where
  | create
  | fill (file : Nat) (pieces : List ByteArray)
  | sync (file : Nat)
  | publish (file : Nat)
  | inspect (file : Nat)
  | replace (file : Nat)
  | discard (file : Nat) (result : BackupResult)
  | done (result : BackupResult)

/-- The text to keep of the chunk at a path, and the pieces it is written in. -/
structure BackupJob where
  chunk : Path
  text : String
  cutting : Cutting

namespace BackupJob

def backup (job : BackupJob) : Path := Chunk.backupPath job.chunk

def directory (job : BackupJob) : Path :=
  match job.chunk.parent? with
  | some parent => if parent.text = "" then ⟨"."⟩ else parent
  | none => ⟨"."⟩

end BackupJob

namespace BackupStage

/-- One step, which a fault may hit. -/
def step (job : BackupJob) (fault : Option OsError) (bench : Workbench) :
    BackupStage → Workbench × BackupStage
  | create =>
    match underFault fault (bench.createStaged job.directory) with
    | .ok (file, bench) => (bench, fill file (job.cutting.pieces job.text.toUTF8))
    | .error e => (bench, done (.error (.stageBackup job.directory e)))
  | fill file [] => (bench, sync file)
  | fill file (piece :: rest) =>
    match underFault fault (bench.appendStaged file piece) with
    | .ok bench => (bench, fill file rest)
    | .error e => (bench, discard file (.error (.fillBackup job.backup e)))
  | sync file =>
    match fault with
    | none => (bench, publish file)
    | some e => (bench, discard file (.error (.fillBackup job.backup e)))
  | publish file =>
    match underFault fault (bench.publishStaged file job.backup) with
    | .ok bench => (bench, done (.ok true))
    | .error .alreadyExists => (bench, inspect file)
    | .error e => (bench, discard file (.error (.createBackup job.backup e)))
  | inspect file =>
    match underFault fault (bench.tree.length job.backup) with
    | .ok length =>
      if length = 0 ∧ job.text ≠ "" then (bench, replace file)
      else (bench, discard file (.ok false))
    | .error e => (bench, discard file (.error (.inspectBackup job.backup e)))
  | replace file =>
    match underFault fault (bench.replaceWithStaged file job.backup) with
    | .ok bench => (bench, done (.ok true))
    | .error e => (bench, discard file (.error (.replaceBackup job.backup e)))
  | discard file result => (bench.discardStaged file, done result)
  | done result => (bench, done result)

def result? : BackupStage → Option BackupResult
  | done result => some result
  | _ => none

/-- A bound on the stages still to come. -/
def phase : BackupStage → Nat
  | create => 7
  | fill _ _ => 6
  | sync _ => 5
  | publish _ => 4
  | inspect _ => 3
  | replace _ => 2
  | discard _ _ => 1
  | done _ => 0

/-- The pieces still to be written in this stage. -/
def remaining : BackupStage → Nat
  | fill _ pieces => pieces.length
  | _ => 0

/-- One stage is nearer to the end than another. -/
def Nearer (next stage : BackupStage) : Prop :=
  next.phase < stage.phase ∨ next.phase = stage.phase ∧ next.remaining < stage.remaining

/-- Each step leads nearer to the end. -/
theorem step_nearer (job : BackupJob) (fault : Option OsError) (bench : Workbench)
    (stage : BackupStage) (h : stage.result? = none) :
    Nearer (step job fault bench stage).2 stage := by
  cases stage with
  | done result => cases h
  | fill file pieces =>
    cases pieces with
    | nil => exact Or.inl (Nat.lt_succ_self 5)
    | cons piece rest =>
      rw [step]
      split
      · exact Or.inr ⟨rfl, Nat.lt_succ_self _⟩
      · exact Or.inl (by simp [phase])
  | inspect file =>
    rw [step]
    split
    · split <;> exact Or.inl (by simp [phase])
    · exact Or.inl (by simp [phase])
  | _ =>
    simp only [step]
    repeat' split
    all_goals exact Or.inl (by simp [phase])

def run (job : BackupJob) (bench : Workbench) (stage : BackupStage) :
    Workbench × BackupResult :=
  match _h : stage.result? with
  | some result => (bench, result)
  | none =>
    let next := step job none bench stage
    run job next.1 next.2
termination_by (stage.phase, stage.remaining)
decreasing_by exact Prod.lex_def.mpr (step_nearer job none bench stage _h)

end BackupStage

/-- Keep the text of the chunk at a path beside it, unless a backup is there. -/
def keepBackup (bench : Workbench) (chunk : Path) (text : String) :
    Workbench × BackupResult :=
  BackupStage.create.run ⟨chunk, text, .whole⟩ bench

end ChunkPrune
