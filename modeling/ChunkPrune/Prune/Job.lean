import ChunkPrune.Prune.Backup
import ChunkPrune.Prune.Outcome

/-!
# Pruning one chunk

The engine is called only for a chunk whose library has flags and whose build names
an entry module; pruning anything else would not be safe. New source is written only
after a backup is there. Whatever goes wrong stays with the chunk: it becomes an
outcome.
-/

namespace ChunkPrune

/-- What all chunks of a run have in common. `parses` says whether a text at a path is
a program. -/
structure PruneSettings where
  engine : Engine
  parses : Path → String → Bool
  validate : Bool
  cutting : Cutting

def noFlagsReason : String := "no export flags defined"

def noEntryReason : String := "missing chunk characteristics"

/-- The reason for new source that is no program, while the old one is. -/
def unparsedReason : String := "optimized output failed to parse"

/-- New source is taken when it is a program, or when the old source is none either. -/
def PruneSettings.accepts (settings : PruneSettings) (path : Path)
    (before after : String) : Bool :=
  !settings.validate || settings.parses path after || !settings.parses path before

/-- The source of a chunk with what shall replace it. -/
structure Draft where
  before : String
  after : String
  prune : ModuleReport

/-- A chunk with the configuration for it. -/
structure PruneJob where
  chunk : Chunk
  config : String
  settings : PruneSettings

/-- How far the work on a chunk has come. -/
inductive PruneStage where
  | read
  | call (source : String)
  | backup (draft : Draft) (stage : BackupStage)
  | truncate (draft : Draft) (backupWritten : Bool)
  | write (draft : Draft) (backupWritten : Bool) (pieces : List ByteArray)
  | done (outcome : Outcome)

namespace PruneJob

def backupJob (job : PruneJob) (draft : Draft) : BackupJob :=
  ⟨job.chunk.path, draft.before, job.settings.cutting⟩

def pruned (job : PruneJob) (draft : Draft) (backupWritten : Bool) : Outcome :=
  .pruned
    { app := job.chunk.app
      fileName := job.chunk.fileName
      library := job.chunk.library
      path := job.chunk.path
      sizeBefore := draft.before.utf8ByteSize
      sizeAfter := draft.after.utf8ByteSize
      prune := draft.prune
      backupWritten }

/-- What an answer of the engine leads to. -/
def judge (job : PruneJob) (source : String) : Except Failure String → PruneStage
  | .error failure => .done (.ofFailure job.chunk failure)
  | .ok text =>
    match Answer.read? text with
    | none => .done (.ofFailure job.chunk .answerNotJson)
    | some (.failed message) => .done (.skip job.chunk .notApplied message)
    | some (.skipped reason) => .done (.skip job.chunk .notApplied reason)
    | some (.success after prune) =>
      if job.settings.accepts job.chunk.path source after then
        .backup ⟨source, after, prune⟩ .create
      else .done (.skip job.chunk .notApplied unparsedReason)

end PruneJob

namespace PruneStage

/-- One step, which a fault may hit. The engine has its own ways to fail. -/
def step (job : PruneJob) (fault : Option OsError) (bench : Workbench) :
    PruneStage → Workbench × PruneStage
  | read =>
    match fault, bench.tree.readText job.chunk.path with
    | some e, _ => (bench, done (.ofFailure job.chunk (.unreadable job.chunk.path (.os e))))
    | none, .error e => (bench, done (.ofFailure job.chunk (.unreadable job.chunk.path e)))
    | none, .ok source => (bench, call source)
  | call source =>
    let request : EngineCall := ⟨source, job.config⟩
    (bench.recordCall request, job.judge source (job.settings.engine request))
  | backup draft stage =>
    match stage.result? with
    | some (.ok written) => (bench, truncate draft written)
    | some (.error failure) => (bench, done (.ofFailure job.chunk failure))
    | none =>
      let next := stage.step (job.backupJob draft) fault bench
      (next.1, backup draft next.2)
  | truncate draft written =>
    match underFault fault (bench.truncate job.chunk.path) with
    | .ok bench =>
      (bench, write draft written (job.settings.cutting.pieces draft.after.toUTF8))
    | .error e => (bench, done (.ofFailure job.chunk (.unwritable job.chunk.path e)))
  | write draft written [] => (bench, done (job.pruned draft written))
  | write draft written (piece :: rest) =>
    match underFault fault (bench.append job.chunk.path piece) with
    | .ok bench => (bench, write draft written rest)
    | .error e => (bench, done (.ofFailure job.chunk (.unwritable job.chunk.path e)))
  | done outcome => (bench, done outcome)

def outcome? : PruneStage → Option Outcome
  | done outcome => some outcome
  | _ => none

/-- A bound on the stages still to come. -/
def phase : PruneStage → Nat
  | read => 12
  | call _ => 11
  | backup _ stage => stage.phase + 3
  | truncate _ _ => 2
  | write _ _ _ => 1
  | done _ => 0

/-- The pieces still to be written in this stage. -/
def remaining : PruneStage → Nat
  | backup _ stage => stage.remaining
  | write _ _ pieces => pieces.length
  | _ => 0

/-- One stage is nearer to the end than another. -/
def Nearer (next stage : PruneStage) : Prop :=
  next.phase < stage.phase ∨ next.phase = stage.phase ∧ next.remaining < stage.remaining

theorem phase_judge_lt (job : PruneJob) (source : String)
    (answer : Except Failure String) : (job.judge source answer).phase < 11 := by
  unfold PruneJob.judge
  repeat' split
  all_goals simp [phase, BackupStage.phase]

/-- Each step leads nearer to the end. -/
theorem step_nearer (job : PruneJob) (fault : Option OsError) (bench : Workbench)
    (stage : PruneStage) (h : stage.outcome? = none) :
    Nearer (step job fault bench stage).2 stage := by
  cases stage with
  | read =>
    simp only [step]
    split <;> exact Or.inl (by simp [phase])
  | call source => exact Or.inl (phase_judge_lt job source _)
  | backup draft stage =>
    rw [step]
    split
    · exact Or.inl (by simp only [phase]; omega)
    · exact Or.inl (by simp only [phase]; omega)
    next hnone =>
      rcases BackupStage.step_nearer (job.backupJob draft) fault bench stage hnone with
        hlt | ⟨heq, hlt⟩
      · exact Or.inl (Nat.add_lt_add_right hlt 3)
      · exact Or.inr ⟨congrArg (· + 3) heq, hlt⟩
  | truncate draft written =>
    rw [step]
    split <;> exact Or.inl (by simp [phase])
  | write draft written pieces =>
    cases pieces with
    | nil => exact Or.inl Nat.one_pos
    | cons piece rest =>
      rw [step]
      split
      · exact Or.inr ⟨rfl, Nat.lt_succ_self _⟩
      · exact Or.inl (by simp [phase])
  | done outcome => cases h

/-- All steps from a stage on, without faults. -/
def run (job : PruneJob) (bench : Workbench) (stage : PruneStage) : Workbench × Outcome :=
  match _h : stage.outcome? with
  | some outcome => (bench, outcome)
  | none =>
    let next := step job none bench stage
    run job next.1 next.2
termination_by (stage.phase, stage.remaining)
decreasing_by exact Prod.lex_def.mpr (step_nearer job none bench stage _h)

end PruneStage

/-- The stage where the work on a chunk starts, with the configuration for it. A chunk
that is not safe to prune is done at once. -/
def Chunk.begin (merged : MergedUsage) (settings : PruneSettings) (chunk : Chunk) :
    PruneJob × PruneStage :=
  let flags := merged.keepFlags chunk.library
  let config := engineConfig chunk.library flags chunk.characteristics
  let stage : PruneStage :=
    if flags.isEmpty then .done (.skip chunk .unsafeToPrune noFlagsReason)
    else if chunk.characteristics.entryModule?.isNone then
      .done (.skip chunk .unsafeToPrune noEntryReason)
    else .read
  (⟨chunk, config.compact, settings⟩, stage)

def Chunk.prune (merged : MergedUsage) (settings : PruneSettings) (bench : Workbench)
    (chunk : Chunk) : Workbench × Outcome :=
  let (job, stage) := chunk.begin merged settings
  stage.run job bench

end ChunkPrune
