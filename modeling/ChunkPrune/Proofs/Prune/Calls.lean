import Mathlib.Data.List.Forall2
import ChunkPrune.Proofs.Prune.Grouping

/-!
# Calls of the engine

A chunk is asked about once at most: its number is given up with the call. The invariant holds
for any tree and any paths, at every point of a batch.
-/

namespace ChunkPrune

/-- A call asks about a chunk with the configuration that merged usage gives it. -/
structure Chunk.AskedBy (merged : MergedUsage) (chunk : Chunk) (call : EngineCall) : Prop where
  config : call.config = (engineConfig chunk.library (merged.keepFlags chunk.library)
    chunk.characteristics).compact
  flagged : (merged.keepFlags chunk.library).isEmpty = false
  entered : chunk.characteristics.entryModule?.isNone = false

namespace PruneStage

/-- The engine has not been called yet. -/
def unasked : PruneStage → Bool
  | read => true
  | call _ => true
  | _ => false

theorem unasked_judge (job : PruneJob) (source : String) (answer : Except Failure String) :
    (job.judge source answer).unasked = false := by
  rcases job.judge_cases source answer with ⟨after, prune, judged⟩ | ⟨cause, reason, judged⟩
  · rw [judged]
    rfl
  · rw [judged]
    rfl

theorem unasked_of_step {job : PruneJob} {fault : Option OsError} {bench : Workbench}
    {stage : PruneStage} (still : (stage.step job fault bench).2.unasked = true) :
    stage.unasked = true ∧ stage.asks? = none := by
  cases stage with
  | read => exact ⟨rfl, rfl⟩
  | call source =>
      rw [step] at still
      simp only [unasked_judge] at still
      cases still
  | backup draft stage =>
      rw [step] at still
      split at still
      · cases still
      · cases still
      · cases still
  | truncate draft written =>
      rw [step] at still
      split at still
      · cases still
      · cases still
  | write draft written pieces =>
      cases pieces with
      | nil => cases still
      | cons piece rest =>
          rw [step] at still
          split at still
          · cases still
          · cases still
  | done outcome => cases still

theorem eq_call_of_asks? {stage : PruneStage} {source : String}
    (asks : stage.asks? = some source) : stage = .call source := by
  cases stage with
  | call other =>
      cases asks
      rfl
  | _ => cases asks

theorem unasked_of_asks? {stage : PruneStage} {source : String}
    (asks : stage.asks? = some source) : stage.unasked = true := by
  rw [eq_call_of_asks? asks]
  rfl

/-- A stage that asks has asked afterwards. -/
theorem step_unasked_of_asks? {job : PruneJob} {fault : Option OsError} {bench : Workbench}
    {stage : PruneStage} {source : String} (asks : stage.asks? = some source) :
    (stage.step job fault bench).2.unasked = false := by
  rw [eq_call_of_asks? asks]
  exact unasked_judge job source _

end PruneStage

theorem Chunk.askedBy_of_begin {merged : MergedUsage} {settings : PruneSettings} {chunk : Chunk}
    (begun : (chunk.begin merged settings).2.unasked = true) (source : String) :
    chunk.AskedBy merged ⟨source, (chunk.begin merged settings).1.config⟩ := by
  simp only [Chunk.begin] at begun
  split at begun
  · cases begun
  next flagged =>
    split at begun
    · cases begun
    next entered =>
      exact ⟨rfl, Bool.eq_false_iff.mpr flagged, Bool.eq_false_iff.mpr entered⟩

namespace GroupTask

variable {merged : MergedUsage} {settings : PruneSettings} {engine : Engine}
  {bench : Workbench} {task : GroupTask} {entries : List NumberedChunk}

/-- The numbers of the chunks that the engine may still be asked about. -/
def unasked (task : GroupTask) : List Nat :=
  (match task.current with
    | some item => if item.stage.unasked then [item.number] else []
    | none => []) ++ task.pending.map (·.1)

/-- A task works on chunks of a list. -/
structure Lists (merged : MergedUsage) (settings : PruneSettings) (entries : List NumberedChunk)
    (task : GroupTask) : Prop where
  current : ∀ item, task.current = some item → (item.number, item.job.chunk) ∈ entries ∧
    item.job = (item.job.chunk.begin merged settings).1 ∧
    (item.stage.unasked = true → (item.job.chunk.begin merged settings).2.unasked = true)
  pending : ∀ entry ∈ task.pending, entry ∈ entries

theorem lists_step (lists : task.Lists merged settings entries) :
    (task.step merged settings engine bench).2.Lists merged settings entries := by
  obtain ⟨finished, current, pending⟩ := task
  cases current with
  | none =>
      cases pending with
      | nil => exact lists
      | cons entry rest =>
          rw [step_begin]
          refine ⟨?_, fun other member => lists.pending other (List.mem_cons_of_mem _ member)⟩
          rintro item ⟨⟩
          exact ⟨lists.pending entry List.mem_cons_self, rfl, id⟩
  | some item =>
      cases done : item.stage.outcome? with
      | some outcome =>
          rw [step_of_outcome done]
          exact ⟨fun _ absurdity => (nomatch absurdity), lists.pending⟩
      | none =>
          rw [step_of_running done]
          refine ⟨?_, lists.pending⟩
          rintro stepped ⟨⟩
          obtain ⟨listed, begun, safe⟩ := lists.current item rfl
          exact ⟨listed, begun, fun still => safe (PruneStage.unasked_of_step still).1⟩

theorem Lists.askedBy {item : WorkItem} (lists : task.Lists merged settings entries)
    (current : task.current = some item) {source : String}
    (asks : item.stage.asks? = some source) :
    item.job.chunk.AskedBy merged ⟨source, item.job.config⟩ := by
  obtain ⟨listed, begun, safe⟩ := lists.current item current
  have isUnasked := PruneStage.unasked_of_asks? asks
  rw [begun]
  exact Chunk.askedBy_of_begin (safe isUnasked) source

/-- A step asks about nothing, or about a chunk whose number it gives up. -/
theorem step_asks (lists : task.Lists merged settings entries) :
    ((task.step merged settings engine bench).1.calls = bench.calls ∧
        (task.step merged settings engine bench).2.unasked.Sublist task.unasked) ∨
      ∃ entry ∈ entries, ∃ call, entry.2.AskedBy merged call ∧
        (task.step merged settings engine bench).1.calls = bench.calls ++ [call] ∧
        task.unasked = entry.1 :: (task.step merged settings engine bench).2.unasked := by
  obtain ⟨finished, current, pending⟩ := task
  cases current with
  | none =>
      cases pending with
      | nil => exact Or.inl ⟨rfl, .refl _⟩
      | cons entry rest =>
          rw [step_begin]
          refine Or.inl ⟨rfl, ?_⟩
          simp only [unasked, List.nil_append, List.map_cons]
          split
          · exact .refl _
          · exact List.sublist_cons_self _ _
  | some item =>
      cases done : item.stage.outcome? with
      | some outcome =>
          rw [step_of_outcome done]
          refine Or.inl ⟨rfl, ?_⟩
          exact List.sublist_append_right _ _
      | none =>
          rw [step_of_running done]
          have calls : (item.stage.step (item.job.withEngine engine) none bench).1.calls =
              bench.calls ++ (item.stage.asks?.map fun source =>
                (⟨source, item.job.config⟩ : EngineCall)).toList :=
            (PruneStage.step_move _ none bench item.stage).calls
          cases asks : item.stage.asks? with
          | none =>
              rw [asks] at calls
              refine Or.inl ⟨calls.trans (List.append_nil _), ?_⟩
              simp only [unasked]
              refine List.Sublist.append_right ?_ _
              split
              next still =>
                rw [if_pos (PruneStage.unasked_of_step still).1]
              · exact List.nil_sublist _
          | some source =>
              rw [asks] at calls
              obtain ⟨listed, -⟩ := lists.current item rfl
              have belongs := lists.askedBy rfl asks
              have isUnasked := PruneStage.unasked_of_asks? asks
              have given : (item.stage.step (item.job.withEngine engine) none bench).2.unasked =
                  false := PruneStage.step_unasked_of_asks? asks
              refine Or.inr ⟨_, listed, ⟨source, item.job.config⟩, belongs, calls, ?_⟩
              simp only [unasked, isUnasked, given, if_true, Bool.false_eq_true, if_false]
              rfl

end GroupTask

namespace Pool

/-- The chunks asked about so far and those still to be asked about are different ones, and
each call belongs to the chunk with its number. -/
structure Asks (merged : MergedUsage) (settings : PruneSettings) (entries : List NumberedChunk)
    (asked : List Nat) (pool : Pool) : Prop where
  lists : ∀ task ∈ pool.tasks, task.Lists merged settings entries
  distinct : (asked ++ pool.tasks.flatMap GroupTask.unasked).Nodup
  calls : List.Forall₂ (fun number call => ∃ chunk, (number, chunk) ∈ entries ∧
    chunk.AskedBy merged call) asked pool.bench.calls

variable {engines : Engine → Prop} {merged : MergedUsage} {settings : PruneSettings}
  {entries : List NumberedChunk} {asked : List Nat} {pool next : Pool}

theorem Asks.step (asks : pool.Asks merged settings entries asked)
    (step : Step engines merged settings pool next) :
    ∃ more, next.Asks merged settings entries more := by
  obtain ⟨allowed, found⟩ := step
  next index task engine =>
  obtain ⟨inside, here⟩ := List.getElem?_eq_some_iff.mp found
  obtain ⟨left, right, before, -, after⟩ : ∃ left right,
      pool.tasks = left ++ pool.tasks[index] :: right ∧ left.length = index ∧
        pool.tasks.set index (task.step merged settings engine pool.bench).2 =
          left ++ (task.step merged settings engine pool.bench).2 :: right :=
    List.exists_of_set inside
  rw [here] at before
  have lists := asks.lists
  have distinct := asks.distinct
  rw [before] at lists distinct
  have own := lists task (by simp)
  have stepLists : ∀ other ∈ left ++ (task.step merged settings engine pool.bench).2 :: right,
      other.Lists merged settings entries := by
    intro other member
    rcases List.mem_append.mp member with member | member
    · exact lists other (List.mem_append_left _ member)
    · rcases List.mem_cons.mp member with rfl | member
      · exact GroupTask.lists_step own
      · exact lists other (List.mem_append_right _ (List.mem_cons_of_mem _ member))
  rw [List.flatMap_append, List.flatMap_cons] at distinct
  rcases GroupTask.step_asks own with ⟨calls, fewer⟩ | ⟨entry, listed, call, belongs, calls, given⟩
  · refine ⟨asked, ?_, ?_, ?_⟩
    · rw [after]
      exact stepLists
    · rw [after, List.flatMap_append, List.flatMap_cons]
      refine distinct.sublist ?_
      exact ((fewer.append_right _).append_left _).append_left _
    · rw [calls]
      exact asks.calls
  · refine ⟨asked ++ [entry.1], ?_, ?_, ?_⟩
    · rw [after]
      exact stepLists
    · rw [after, List.flatMap_append, List.flatMap_cons]
      rw [given] at distinct
      refine (List.Perm.nodup_iff ?_).mp distinct
      rw [List.append_assoc]
      apply List.Perm.append_left _
      exact List.perm_middle
    · rw [calls]
      exact List.rel_append asks.calls
        (List.Forall₂.cons ⟨entry.2, listed, belongs⟩ List.Forall₂.nil)

theorem Steps.asks (steps : Steps engines merged settings pool next)
    (asks : pool.Asks merged settings entries asked) :
    ∃ more, next.Asks merged settings entries more := by
  induction steps with
  | refl => exact ⟨asked, asks⟩
  | tail _ step inductionHypothesis =>
      obtain ⟨more, asks⟩ := inductionHypothesis
      exact asks.step step

end Pool

/-! ## The start of a batch -/

theorem addToGroups_perm (entry : NumberedChunk) (groups : List (List NumberedChunk)) :
    (addToGroups entry groups).flatten.Perm (groups.flatten ++ [entry]) := by
  induction groups with
  | nil => exact .refl _
  | cons group rest inductionHypothesis =>
      rw [addToGroups]
      split
      · rw [List.flatten_cons, List.flatten_cons, List.append_assoc, List.append_assoc]
        exact List.perm_append_comm.append_left _
      · rw [List.flatten_cons, List.flatten_cons, List.append_assoc]
        exact inductionHypothesis.append_left _

theorem foldl_addToGroups_perm (entries : List NumberedChunk)
    (groups : List (List NumberedChunk)) :
    (entries.foldl (fun groups entry => addToGroups entry groups) groups).flatten.Perm
      (groups.flatten ++ entries) := by
  induction entries generalizing groups with
  | nil => rw [List.foldl_nil, List.append_nil]
  | cons entry rest inductionHypothesis =>
      rw [List.foldl_cons]
      apply (inductionHypothesis _).trans
      apply ((addToGroups_perm entry groups).append_right rest).trans
      rw [List.append_assoc]
      exact .refl _

/-- The groups of a list have its chunks, each of them once. -/
theorem flatten_pathGroups_perm (chunks : List Chunk) :
    (pathGroups chunks).flatten.Perm (numbered chunks) := by
  have perm := foldl_addToGroups_perm (numbered chunks) []
  rw [← pathGroups_eq_foldl] at perm
  exact perm

theorem Pool.asks_start (merged : MergedUsage) (settings : PruneSettings) (tree : FileTree)
    (chunks : List Chunk) :
    (Pool.start (.ofTree tree) chunks).Asks merged settings (numbered chunks) [] := by
  have perm := flatten_pathGroups_perm chunks
  refine ⟨?_, ?_, List.Forall₂.nil⟩
  · intro task member
    obtain ⟨group, groupMember, rfl⟩ := List.mem_map.mp member
    refine ⟨fun _ absurdity => (nomatch absurdity), fun entry entryMember => ?_⟩
    exact perm.mem_iff.mp (List.mem_flatten.mpr ⟨group, groupMember, entryMember⟩)
  · have unasked : ((pathGroups chunks).map GroupTask.ofGroup).flatMap GroupTask.unasked =
        (pathGroups chunks).flatten.map (·.1) := by
      rw [List.flatMap_map, List.map_flatten, List.flatMap_def]
      rfl
    show (((pathGroups chunks).map GroupTask.ofGroup).flatMap GroupTask.unasked).Nodup
    rw [unasked]
    apply ((perm.map (·.1)).nodup_iff).mpr
    rw [numbered_map_fst]
    exact List.nodup_range

theorem mem_numbered_iff {chunks : List Chunk} {number : Nat} {chunk : Chunk} :
    (number, chunk) ∈ numbered chunks ↔ chunks[number]? = some chunk := by
  constructor
  · intro member
    obtain ⟨⟨other, index⟩, listed, same⟩ := List.mem_map.mp member
    cases same
    exact List.mem_zipIdx_iff_getElem?.mp listed
  · intro found
    exact List.mem_map.mpr ⟨(chunk, number), List.mem_zipIdx_iff_getElem?.mpr found, rfl⟩

/-- At every point of a batch, each call belongs to a chunk of the list with its own place. -/
theorem Pool.Steps.calls {engines : Engine → Prop} {merged : MergedUsage}
    {settings : PruneSettings} {tree : FileTree} {chunks : List Chunk} {pool : Pool}
    (steps : Pool.Steps engines merged settings (.start (.ofTree tree) chunks) pool) :
    ∃ asked : List Nat, asked.Nodup ∧ List.Forall₂ (fun number call =>
      ∃ chunk, chunks[number]? = some chunk ∧ chunk.AskedBy merged call) asked
        pool.bench.calls := by
  obtain ⟨asked, asks⟩ := steps.asks (Pool.asks_start merged settings tree chunks)
  refine ⟨asked, (List.nodup_append.mp asks.distinct).1, asks.calls.imp ?_⟩
  rintro number call ⟨chunk, member, belongs⟩
  exact ⟨chunk, mem_numbered_iff.mp member, belongs⟩

end ChunkPrune
