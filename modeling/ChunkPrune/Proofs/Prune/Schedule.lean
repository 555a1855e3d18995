import Mathlib.Logic.Relation
import ChunkPrune.Prune.Batch
import ChunkPrune.Proofs.Prune.Footprint

/-!
# Groups of chunks handled at the same time

Each group of chunks is one task, which handles its chunks in their order. The tasks of a
batch share the workbench and take steps in any order. The answer to a call of the engine
may be that of any engine from a given class, at each call of another one: an engine that
keeps a state, or that does not always say the same, is a class of engines here.
-/

namespace ChunkPrune

/-- A chunk that is being worked on, with its place in the list of all chunks. -/
structure WorkItem where
  number : Nat
  job : PruneJob
  stage : PruneStage

/-- The work on the chunks of one group: outcomes so far, the chunk at hand, the others. -/
structure GroupTask where
  finished : List NumberedOutcome
  current : Option WorkItem
  pending : List NumberedChunk

/-- The same work with answers from another engine. -/
def PruneJob.withEngine (job : PruneJob) (engine : Engine) : PruneJob :=
  { job with settings := { job.settings with engine } }

/-- The class of one engine that is a function of its calls. -/
def Engine.Only (engine other : Engine) : Prop := other = engine

/-- Any engine at all, and another one at each call. -/
def Engine.Any (_ : Engine) : Prop := True

namespace GroupTask

def ofGroup (group : List NumberedChunk) : GroupTask := ⟨[], none, group⟩

/-- Nothing is left to do. -/
def Finished (task : GroupTask) : Prop := task.current = none ∧ task.pending = []

/-- One step of a task: take up the next chunk, work on it, or note its outcome. -/
def step (merged : MergedUsage) (settings : PruneSettings) (engine : Engine)
    (bench : Workbench) (task : GroupTask) : Workbench × GroupTask :=
  match task.current, task.pending with
  | none, [] => (bench, task)
  | none, (number, chunk) :: rest =>
    let (job, stage) := chunk.begin merged settings
    (bench, ⟨task.finished, some ⟨number, job, stage⟩, rest⟩)
  | some item, _ =>
    match item.stage.outcome? with
    | some outcome => (bench, ⟨task.finished ++ [(item.number, outcome)], none, task.pending⟩)
    | none =>
      let next := item.stage.step (item.job.withEngine engine) none bench
      (next.1, { task with current := some { item with stage := next.2 } })

/-- The staged file that a task works with. -/
def staged? (task : GroupTask) : Option Nat := task.current.bind (·.stage.staged?)

end GroupTask

/-- The tasks of a batch with the workbench that they share. -/
structure Pool where
  bench : Workbench
  tasks : List GroupTask

namespace Pool

def ofGroups (bench : Workbench) (groups : List (List NumberedChunk)) : Pool :=
  ⟨bench, groups.map GroupTask.ofGroup⟩

/-- The pool at the start of a batch. -/
def start (bench : Workbench) (chunks : List Chunk) : Pool := ofGroups bench (pathGroups chunks)

/-- One task takes one step. -/
inductive Step (engines : Engine → Prop) (merged : MergedUsage) (settings : PruneSettings) :
    Pool → Pool → Prop
  | work {pool : Pool} {index : Nat} {task : GroupTask} {engine : Engine}
      (allowed : engines engine) (found : pool.tasks[index]? = some task) :
      Step engines merged settings pool
        ⟨(task.step merged settings engine pool.bench).1,
          pool.tasks.set index (task.step merged settings engine pool.bench).2⟩

/-- Some steps, in any order of the tasks. -/
abbrev Steps (engines : Engine → Prop) (merged : MergedUsage) (settings : PruneSettings) :
    Pool → Pool → Prop :=
  Relation.ReflTransGen (Step engines merged settings)

/-- More engines allow more steps. -/
theorem Steps.mono {engines more : Engine → Prop} {merged : MergedUsage}
    {settings : PruneSettings} {pool next : Pool} (steps : Steps engines merged settings pool next)
    (included : ∀ engine, engines engine → more engine) : Steps more merged settings pool next := by
  induction steps with
  | refl => exact .refl
  | tail _ step inductionHypothesis =>
      obtain ⟨allowed, found⟩ := step
      exact .tail inductionHypothesis (.work (included _ allowed) found)

def Finished (pool : Pool) : Prop := ∀ task ∈ pool.tasks, task.Finished

/-- The outcomes of all tasks, in the order of the chunks. -/
def result (pool : Pool) : BatchResult :=
  .ofOutcomes (inChunkOrder (pool.tasks.flatMap (·.finished)))

end Pool

/-! ## Running the tasks one after another -/

namespace PruneStage

variable {job : PruneJob} {bench : Workbench} {stage : PruneStage}

theorem run_of_outcome {outcome : Outcome} (done : stage.outcome? = some outcome) :
    stage.run job bench = (bench, outcome) := by
  rw [run]
  split
  next found => rw [done] at found; cases found; rfl
  next running => rw [done] at running; cases running

theorem run_of_running (running : stage.outcome? = none) :
    stage.run job bench =
      (stage.step job none bench).2.run job (stage.step job none bench).1 := by
  rw [run]
  split
  next found => rw [running] at found; cases found
  next => rfl

end PruneStage

namespace GroupTask

variable {merged : MergedUsage} {settings : PruneSettings} {engine : Engine}
  {bench : Workbench} {finished : List NumberedOutcome} {pending : List NumberedChunk}

theorem step_begin (number : Nat) (chunk : Chunk) :
    step merged settings engine bench ⟨finished, none, (number, chunk) :: pending⟩ =
      (bench, ⟨finished, some ⟨number, (chunk.begin merged settings).1,
        (chunk.begin merged settings).2⟩, pending⟩) := rfl

theorem step_of_outcome {item : WorkItem} {outcome : Outcome}
    (done : item.stage.outcome? = some outcome) :
    step merged settings engine bench ⟨finished, some item, pending⟩ =
      (bench, ⟨finished ++ [(item.number, outcome)], none, pending⟩) := by
  simp only [step, done]

theorem step_of_running {item : WorkItem} (running : item.stage.outcome? = none) :
    step merged settings engine bench ⟨finished, some item, pending⟩ =
      ((item.stage.step (item.job.withEngine engine) none bench).1,
        ⟨finished, some { item with
          stage := (item.stage.step (item.job.withEngine engine) none bench).2 }, pending⟩) := by
  simp only [step, running]

end GroupTask

namespace Pool

section Sequential

variable (engines : Engine → Prop) (merged : MergedUsage) (settings : PruneSettings)
  (left right : List GroupTask)

theorem step_at (bench : Workbench) (task : GroupTask) {engine : Engine}
    (allowed : engines engine) :
    Step engines merged settings ⟨bench, left ++ task :: right⟩
      ⟨(task.step merged settings engine bench).1,
        left ++ (task.step merged settings engine bench).2 :: right⟩ := by
  have found : (left ++ task :: right)[left.length]? = some task := by simp
  have step : Step engines merged settings ⟨bench, left ++ task :: right⟩ _ := .work allowed found
  simpa using step

theorem steps_stage (job : PruneJob) {engine : Engine} (allowed : engines engine) (number : Nat)
    (finished : List NumberedOutcome) (pending : List NumberedChunk) (bench : Workbench)
    (stage : PruneStage) :
    Steps engines merged settings
      ⟨bench, left ++ ⟨finished, some ⟨number, job, stage⟩, pending⟩ :: right⟩
      ⟨(stage.run (job.withEngine engine) bench).1,
        left ++ ⟨finished ++ [(number, (stage.run (job.withEngine engine) bench).2)], none,
          pending⟩ :: right⟩ := by
  induction bench, stage using PruneStage.run.induct (job.withEngine engine) with
  | case1 bench stage outcome done =>
      have step := step_at engines merged settings left right bench
        ⟨finished, some ⟨number, job, stage⟩, pending⟩ allowed
      rw [GroupTask.step_of_outcome done] at step
      rw [PruneStage.run_of_outcome done]
      exact .single step
  | case2 bench stage running next inductionHypothesis =>
      have step := step_at engines merged settings left right bench
        ⟨finished, some ⟨number, job, stage⟩, pending⟩ allowed
      rw [GroupTask.step_of_running running] at step
      rw [PruneStage.run_of_running running]
      exact .head step inductionHypothesis

theorem steps_group (allowed : engines settings.engine) (finished : List NumberedOutcome)
    (group : List NumberedChunk) (bench : Workbench) :
    Steps engines merged settings ⟨bench, left ++ ⟨finished, none, group⟩ :: right⟩
      ⟨(pruneGroup merged settings bench group).1,
        left ++ ⟨finished ++ (pruneGroup merged settings bench group).2, none, []⟩ :: right⟩ := by
  induction group generalizing finished bench with
  | nil => simpa [pruneGroup] using Relation.ReflTransGen.refl
  | cons entry rest inductionHypothesis =>
      obtain ⟨number, chunk⟩ := entry
      have begun := step_at engines merged settings left right bench
        ⟨finished, none, (number, chunk) :: rest⟩ allowed
      rw [GroupTask.step_begin] at begun
      have worked := steps_stage engines merged settings left right
        (chunk.begin merged settings).1 allowed number finished rest bench
        (chunk.begin merged settings).2
      have others := inductionHypothesis
        (finished ++ [(number, (chunk.prune merged settings bench).2)])
        (chunk.prune merged settings bench).1
      rw [List.append_assoc, List.singleton_append] at others
      exact .head begun (worked.trans others)

theorem steps_groups (allowed : engines settings.engine) (groups : List (List NumberedChunk))
    (bench : Workbench) :
    ∃ tasks, Steps engines merged settings ⟨bench, left ++ groups.map GroupTask.ofGroup⟩
        ⟨(pruneGroups merged settings bench groups).1, left ++ tasks⟩ ∧
      (∀ task ∈ tasks, task.Finished) ∧
      tasks.flatMap (·.finished) = (pruneGroups merged settings bench groups).2 := by
  induction groups generalizing left bench with
  | nil => exact ⟨[], .refl, fun _ absurdity => absurd absurdity List.not_mem_nil, rfl⟩
  | cons group rest inductionHypothesis =>
      have first := steps_group engines merged settings left (rest.map GroupTask.ofGroup) allowed
        [] group bench
      obtain ⟨tasks, others, finished, outcomes⟩ := inductionHypothesis
        (left ++ [⟨(pruneGroup merged settings bench group).2, none, []⟩])
        (pruneGroup merged settings bench group).1
      rw [List.append_assoc, List.append_assoc, List.singleton_append,
        List.singleton_append] at others
      refine ⟨⟨(pruneGroup merged settings bench group).2, none, []⟩ :: tasks,
        first.trans others, ?_, ?_⟩
      · intro task member
        rcases List.mem_cons.mp member with rfl | member
        · exact ⟨rfl, rfl⟩
        · exact finished task member
      · rw [List.flatMap_cons, outcomes, pruneGroups]

end Sequential

/-- Handling the groups one after another is one of the orders. -/
theorem exists_steps_pruneChunks {engines : Engine → Prop} {settings : PruneSettings}
    (allowed : engines settings.engine) (merged : MergedUsage) (bench : Workbench)
    (chunks : List Chunk) :
    ∃ pool, Steps engines merged settings (start bench chunks) pool ∧ pool.Finished ∧
      pool.bench = (pruneChunks merged settings bench chunks).1 ∧
      pool.result = (pruneChunks merged settings bench chunks).2 := by
  obtain ⟨tasks, steps, finished, outcomes⟩ :=
    steps_groups engines merged settings [] allowed (pathGroups chunks) bench
  refine ⟨_, steps, finished, rfl, ?_⟩
  rw [result, List.nil_append, outcomes, pruneChunks]

end Pool

/-! ## A batch can always be brought to its end -/

namespace Pool

section Ending

variable (engines : Engine → Prop) (merged : MergedUsage) (settings : PruneSettings)
  (left right : List GroupTask)

theorem exists_finished_task {engine : Engine} (allowed : engines engine)
    (finished : List NumberedOutcome) (pending : List NumberedChunk) (bench : Workbench) :
    ∃ after task, Steps engines merged settings
      ⟨bench, left ++ ⟨finished, none, pending⟩ :: right⟩ ⟨after, left ++ task :: right⟩ ∧
        task.Finished := by
  induction pending generalizing finished bench with
  | nil => exact ⟨bench, _, .refl, rfl, rfl⟩
  | cons entry rest inductionHypothesis =>
      obtain ⟨number, chunk⟩ := entry
      have begun := step_at engines merged settings left right bench
        ⟨finished, none, (number, chunk) :: rest⟩ allowed
      rw [GroupTask.step_begin] at begun
      have worked := steps_stage engines merged settings left right
        (chunk.begin merged settings).1 allowed number finished rest bench
        (chunk.begin merged settings).2
      obtain ⟨after, task, others, done⟩ := inductionHypothesis _ _
      exact ⟨after, task, .head begun (worked.trans others), done⟩

theorem exists_finished_tasks {engine : Engine} (allowed : engines engine)
    (tasks : List GroupTask) (bench : Workbench) :
    ∃ last : Pool,
      Steps engines merged settings ⟨bench, left ++ tasks⟩ ⟨last.bench, left ++ last.tasks⟩ ∧
        last.Finished := by
  induction tasks generalizing left bench with
  | nil => exact ⟨⟨bench, []⟩, .refl, fun _ absurdity => absurd absurdity List.not_mem_nil⟩
  | cons task rest inductionHypothesis =>
      obtain ⟨finished, current, pending⟩ := task
      obtain ⟨middle, ended, first, done⟩ : ∃ middle ended, Steps engines merged settings
          ⟨bench, left ++ ⟨finished, current, pending⟩ :: rest⟩
          ⟨middle, left ++ ended :: rest⟩ ∧ ended.Finished := by
        cases current with
        | none => exact exists_finished_task engines merged settings left rest allowed _ _ bench
        | some item =>
            have worked := steps_stage engines merged settings left rest item.job allowed
              item.number finished pending bench item.stage
            obtain ⟨middle, ended, others, done⟩ :=
              exists_finished_task engines merged settings left rest allowed _ pending _
            exact ⟨middle, ended, worked.trans others, done⟩
      obtain ⟨last, others, rested⟩ := inductionHypothesis (left ++ [ended]) middle
      rw [List.append_assoc, List.append_assoc, List.singleton_append,
        List.singleton_append] at others
      refine ⟨⟨last.bench, ended :: last.tasks⟩, first.trans others, fun other member => ?_⟩
      rcases List.mem_cons.mp member with rfl | member
      · exact done
      · exact rested other member

end Ending

/-- From every point of a batch there are steps to its end. -/
theorem exists_finished {engines : Engine → Prop} {engine : Engine} (allowed : engines engine)
    (merged : MergedUsage) (settings : PruneSettings) (pool : Pool) :
    ∃ last, Steps engines merged settings pool last ∧ last.Finished :=
  exists_finished_tasks engines merged settings [] allowed pool.tasks pool.bench

end Pool

end ChunkPrune
