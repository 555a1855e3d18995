import Mathlib.Data.List.Perm.Basic
import ChunkPrune.Proofs.Prune.Calls
import ChunkPrune.Proofs.Prune.Order

/-!
# Each chunk has one outcome

A task settles the chunks of its group one after another. So a finished batch has one outcome
for each chunk of the list, which is about this chunk, and they come in the order of the list.
This holds for any tree and any paths, with any engines.
-/

namespace ChunkPrune

/-- An outcome is about a chunk. -/
def Outcome.Concerns (chunk : Chunk) : Outcome → Prop
  | pruned result => result.app = chunk.app ∧ result.fileName = chunk.fileName ∧
      result.library = chunk.library ∧ result.path = chunk.path
  | skipped skip => skip.app = chunk.app ∧ skip.fileName = chunk.fileName ∧
      skip.library = chunk.library

/-- An outcome at the place of a chunk is about the chunk. -/
def Settles (entry : NumberedChunk) (outcome : NumberedOutcome) : Prop :=
  outcome.1 = entry.1 ∧ outcome.2.Concerns entry.2

/-- A result tells for each chunk of a list what became of it, in the order of the list. -/
def BatchResult.Settles (chunks : List Chunk) (result : BatchResult) : Prop :=
  ∃ outcomes, List.Forall₂ (fun chunk outcome => outcome.Concerns chunk) chunks outcomes ∧
    result = .ofOutcomes outcomes

namespace PruneStage

/-- If the work has ended, its outcome is about the chunk. -/
def Concerns (chunk : Chunk) : PruneStage → Prop
  | done outcome => outcome.Concerns chunk
  | _ => True

theorem concerns_of_outcome {chunk : Chunk} {stage : PruneStage} {outcome : Outcome}
    (concerns : stage.Concerns chunk) (ended : stage.outcome? = some outcome) :
    outcome.Concerns chunk := by
  cases stage with
  | done other =>
      cases ended
      exact concerns
  | _ => cases ended

theorem concerns_judge (job : PruneJob) (source : String) (answer : Except Failure String) :
    (job.judge source answer).Concerns job.chunk := by
  rcases job.judge_cases source answer with ⟨after, prune, judged⟩ | ⟨cause, reason, judged⟩
  · rw [judged]
    trivial
  · rw [judged]
    exact ⟨rfl, rfl, rfl⟩

theorem concerns_begin (merged : MergedUsage) (settings : PruneSettings) (chunk : Chunk) :
    (chunk.begin merged settings).2.Concerns chunk := by
  rcases chunk.begin_cases merged settings with begun | ⟨cause, reason, begun⟩
  · rw [begun]
    trivial
  · rw [begun]
    exact ⟨rfl, rfl, rfl⟩

theorem concerns_step (job : PruneJob) (fault : Option OsError) (bench : Workbench)
    {stage : PruneStage} (concerns : stage.Concerns job.chunk) :
    (stage.step job fault bench).2.Concerns job.chunk := by
  cases stage with
  | read =>
      simp only [step]
      split
      · exact ⟨rfl, rfl, rfl⟩
      · exact ⟨rfl, rfl, rfl⟩
      · trivial
  | call source => exact concerns_judge job source _
  | backup draft stage =>
      rw [step]
      split
      · trivial
      · exact ⟨rfl, rfl, rfl⟩
      · trivial
  | truncate draft written =>
      rw [step]
      split
      · trivial
      · exact ⟨rfl, rfl, rfl⟩
  | write draft written pieces =>
      cases pieces with
      | nil => exact ⟨rfl, rfl, rfl, rfl⟩
      | cons piece rest =>
          rw [step]
          split
          · trivial
          · exact ⟨rfl, rfl, rfl⟩
  | done outcome => exact concerns

end PruneStage

/-! ## A task settles its group -/

namespace GroupTask

/-- The chunk that the task is working on. -/
def atHand (task : GroupTask) : List NumberedChunk :=
  task.current.toList.map fun item => (item.number, item.job.chunk)

/-- The chunks of a group are those that the task has settled, the one at hand and those still
to come. -/
def Handles (group : List NumberedChunk) (task : GroupTask) : Prop :=
  (∀ item, task.current = some item → item.stage.Concerns item.job.chunk) ∧
    ∃ settled, group = settled ++ (task.atHand ++ task.pending) ∧
      List.Forall₂ Settles settled task.finished

theorem handles_ofGroup (group : List NumberedChunk) : (ofGroup group).Handles group :=
  ⟨fun _ absurdity => (nomatch absurdity), [], rfl, .nil⟩

theorem Handles.step {group : List NumberedChunk} {task : GroupTask}
    (handles : task.Handles group) (merged : MergedUsage) (settings : PruneSettings)
    (engine : Engine) (bench : Workbench) :
    (task.step merged settings engine bench).2.Handles group := by
  obtain ⟨finished, current, pending⟩ := task
  obtain ⟨concerns, settled, shape, settles⟩ := handles
  cases current with
  | none =>
      cases pending with
      | nil => exact ⟨concerns, settled, shape, settles⟩
      | cons entry rest =>
          obtain ⟨number, chunk⟩ := entry
          rw [step_begin]
          refine ⟨?_, settled, shape, settles⟩
          rintro item ⟨⟩
          exact PruneStage.concerns_begin merged settings chunk
  | some item =>
      have itemConcerns := concerns item rfl
      cases ended : item.stage.outcome? with
      | some outcome =>
          rw [step_of_outcome ended]
          refine ⟨fun _ absurdity => (nomatch absurdity),
            settled ++ [(item.number, item.job.chunk)], ?_, ?_⟩
          · rw [shape, List.append_assoc]
            rfl
          · exact List.rel_append settles
              (.cons ⟨rfl, PruneStage.concerns_of_outcome itemConcerns ended⟩ .nil)
      | none =>
          rw [step_of_running ended]
          refine ⟨?_, settled, shape, settles⟩
          rintro stepped ⟨⟩
          exact PruneStage.concerns_step (item.job.withEngine engine) none bench itemConcerns

theorem Handles.finished {group : List NumberedChunk} {task : GroupTask}
    (handles : task.Handles group) (done : task.Finished) :
    List.Forall₂ Settles group task.finished := by
  obtain ⟨-, settled, shape, settles⟩ := handles
  rw [atHand, done.1, done.2] at shape
  obtain rfl : group = settled := shape.trans (List.append_nil settled)
  exact settles

end GroupTask

/-! ## A batch settles its chunks -/

namespace Pool

variable {engines : Engine → Prop} {merged : MergedUsage} {settings : PruneSettings}
  {pool next : Pool} {chunks : List Chunk} {bench : Workbench}

theorem handles_set {groups : List (List NumberedChunk)} {tasks : List GroupTask}
    (handles : List.Forall₂ (fun group task => task.Handles group) groups tasks) {index : Nat}
    {task after : GroupTask} (found : tasks[index]? = some task)
    (kept : ∀ group, task.Handles group → after.Handles group) :
    List.Forall₂ (fun group task => task.Handles group) groups (tasks.set index after) := by
  induction handles generalizing index with
  | nil => cases found
  | cons first others inductionHypothesis =>
      cases index with
      | zero =>
          cases found
          exact .cons (kept _ first) others
      | succ index => exact .cons first (inductionHypothesis found)

/-- The tasks handle the groups that they were given, at every point of a batch. -/
theorem Steps.handles (steps : Steps engines merged settings (.start bench chunks) pool) :
    List.Forall₂ (fun group task => task.Handles group) (pathGroups chunks) pool.tasks := by
  induction steps with
  | refl =>
      show List.Forall₂ _ (pathGroups chunks) ((pathGroups chunks).map GroupTask.ofGroup)
      rw [List.forall₂_map_right_iff]
      exact List.forall₂_same.mpr fun group _ => GroupTask.handles_ofGroup group
  | tail _ step inductionHypothesis =>
      obtain ⟨allowed, found⟩ := step
      exact handles_set inductionHypothesis found fun group handles => handles.step _ _ _ _

theorem handles_finished {groups : List (List NumberedChunk)} {tasks : List GroupTask}
    (handles : List.Forall₂ (fun group task => task.Handles group) groups tasks)
    (finished : ∀ task ∈ tasks, task.Finished) :
    List.Forall₂ Settles groups.flatten (tasks.flatMap (·.finished)) := by
  induction handles with
  | nil => exact .nil
  | cons first others inductionHypothesis =>
      rw [List.flatten_cons, List.flatMap_cons]
      exact List.rel_append (first.finished (finished _ List.mem_cons_self))
        (inductionHypothesis fun task member => finished task (List.mem_cons_of_mem _ member))

theorem map_fst_of_settles {entries : List NumberedChunk} {outcomes : List NumberedOutcome}
    (settles : List.Forall₂ Settles entries outcomes) :
    outcomes.map (·.1) = entries.map (·.1) := by
  induction settles with
  | nil => rfl
  | cons first others inductionHypothesis =>
      rw [List.map_cons, List.map_cons, first.1, inductionHypothesis]

/-- A finished batch has settled each of its chunks. -/
theorem Steps.settles (steps : Steps engines merged settings (.start bench chunks) pool)
    (finished : pool.Finished) : pool.result.Settles chunks := by
  have grouped := handles_finished steps.handles finished
  obtain ⟨ordered, settles, perm⟩ :=
    List.perm_comp_forall₂ (flatten_pathGroups_perm chunks).symm grouped
  have increasing : (ordered.map (·.1)).Pairwise (· < ·) := by
    rw [map_fst_of_settles settles, numbered_map_fst]
    exact List.pairwise_lt_range
  refine ⟨ordered.map (·.2), ?_, ?_⟩
  · rw [← numbered_map_snd chunks, List.forall₂_map_left_iff, List.forall₂_map_right_iff]
    exact settles.imp fun entry outcome settled => settled.2
  · rw [result, inChunkOrder_of_perm perm.symm increasing]

end Pool

/-- The results and the chunks passed over are together as many as the outcomes. -/
theorem BatchResult.length_ofOutcomes (outcomes : List Outcome) :
    (ofOutcomes outcomes).results.length + (ofOutcomes outcomes).skipped.length =
      outcomes.length := by
  induction outcomes with
  | nil => rfl
  | cons outcome rest inductionHypothesis =>
      rw [List.length_cons, ← inductionHypothesis]
      cases outcome with
      | pruned result => exact Nat.succ_add _ _
      | skipped skip => exact Nat.add_succ _ _

theorem BatchResult.Settles.length {chunks : List Chunk} {result : BatchResult}
    (settles : result.Settles chunks) :
    result.results.length + result.skipped.length = chunks.length := by
  obtain ⟨outcomes, concerns, rfl⟩ := settles
  rw [length_ofOutcomes, concerns.length_eq]

end ChunkPrune
