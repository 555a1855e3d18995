import Mathlib.Algebra.BigOperators.Group.Finset.Basic
import Mathlib.Algebra.Ring.Int.Defs
import ChunkPrune.Proofs.Prune.Frame
import ChunkPrune.Summary

/-!
# Savings

Each result tells how many bytes one rewriting of a chunk saved. A chunk that is rewritten
several times starts each time from what the time before has left, so over a group the savings
add up to what the chunk has lost in all. Chunks passed over have lost nothing. So the savings
of a batch are those of its files, each counted once.
-/

namespace ChunkPrune

/-- The bytes that a result says were saved. -/
def PruneResult.bytesSaved (result : PruneResult) : Int :=
  (result.sizeBefore : Int) - result.sizeAfter

/-- The bytes saved with an outcome; none for a chunk that was passed over. -/
def Outcome.bytesSaved : Outcome → Int
  | pruned result => result.bytesSaved
  | skipped _ => 0

/-- The length of what a path leads to, or zero where it leads nowhere. -/
def FileTree.sizeAt (tree : FileTree) (path : Path) : Nat :=
  match tree.length path with
  | .ok length => length
  | .error _ => 0

theorem FileTree.Holds.sizeAt {tree : FileTree} {site : Site} {slot : Slot}
    (holds : tree.Holds site slot) (linkFree : tree.LinkFree) :
    tree.sizeAt site.path = slot.chunk.size := by
  rw [FileTree.sizeAt, (holds.reaches linkFree).length_file holds.chunk]

/-! ## The chunks of a group -/

namespace Slot

variable {slot : Slot} {site : Site}

/-- The result for a draft has the size that the chunk has in the end, and the one it had, when
the draft was made for the chunk as it was. -/
theorem overwrite_sizes {job : PruneJob} {draft : Draft} {published : Slot × BackupResult}
    (read : published.1.chunk = draft.before.toUTF8) {result : PruneResult}
    (pruned : (overwrite job draft published).2 = .pruned result) :
    result.sizeBefore = published.1.chunk.size ∧
      result.sizeAfter = (overwrite job draft published).1.chunk.size := by
  obtain ⟨slot, outcome⟩ := published
  cases outcome with
  | ok written =>
      cases pruned
      exact ⟨(congrArg ByteArray.size read).symm, rfl⟩
  | error failure => cases pruned

/-- A result has the sizes of the chunk before and after. -/
theorem prune_sizes {engine : Engine} {merged : MergedUsage} {settings : PruneSettings}
    {chunk : Chunk} {result : PruneResult}
    (pruned : (slot.prune engine merged settings site chunk).2 = .pruned result) :
    result.sizeBefore = slot.chunk.size ∧
      result.sizeAfter = (slot.prune engine merged settings site chunk).1.chunk.size := by
  rcases slot.prune_eq_conclude_or_skip engine merged settings site chunk with
    ⟨job, -, source, answer, read, concluded⟩ | ⟨cause, reason, passed⟩
  · rw [concluded] at pruned ⊢
    rcases job.verdict_cases source answer with ⟨after, prune, worth⟩ | ⟨cause, reason, worth⟩
    · rw [worth, conclude] at pruned ⊢
      have published := slot.publish_chunk site source source.toUTF8
      obtain ⟨before, after⟩ := overwrite_sizes (published.trans read) pruned
      exact ⟨before.trans (congrArg ByteArray.size published), after⟩
    · rw [worth] at pruned
      cases pruned
  · rw [passed] at pruned
    cases pruned

/-- The outcome of pruning a chunk says what the chunk has lost. -/
theorem prune_bytesSaved (slot : Slot) (site : Site) (engine : Engine) (merged : MergedUsage)
    (settings : PruneSettings) (chunk : Chunk) :
    (slot.prune engine merged settings site chunk).2.bytesSaved =
      (slot.chunk.size : Int) - (slot.prune engine merged settings site chunk).1.chunk.size := by
  cases outcome : (slot.prune engine merged settings site chunk).2 with
  | pruned result =>
      obtain ⟨before, after⟩ := prune_sizes outcome
      rw [Outcome.bytesSaved, PruneResult.bytesSaved, before, after]
  | skipped skip =>
      rcases slot.prune_cases site engine merged settings chunk with
        same | ⟨result, pruned, -⟩
      · rw [same, Int.sub_self, Outcome.bytesSaved]
      · rw [outcome] at pruned
        cases pruned

/-- The outcomes of a group add up to what its chunk has lost: what each pruning leaves is what
the next one starts from. -/
theorem PrunesGroup.sum_bytesSaved {engines : Engine → Prop} {merged : MergedUsage}
    {settings : PruneSettings} {after : Slot} {group : List NumberedChunk}
    {outcomes : List NumberedOutcome}
    (prunes : slot.PrunesGroup engines merged settings site group after outcomes) :
    (outcomes.map (·.2.bytesSaved)).sum = (slot.chunk.size : Int) - after.chunk.size := by
  induction prunes with
  | nil slot => exact (Int.sub_self _).symm
  | @cons slot after number chunk rest outcomes engine allowed others inductionHypothesis =>
      have first := slot.prune_bytesSaved site engine merged settings chunk
      rw [List.map_cons, List.sum_cons, inductionHypothesis, first]
      omega

end Slot

/-! ## The results of a batch -/

theorem BatchResult.sum_bytesSaved (outcomes : List Outcome) :
    ((ofOutcomes outcomes).results.map (·.bytesSaved)).sum =
      (outcomes.map (·.bytesSaved)).sum := by
  rw [ofOutcomes]
  induction outcomes with
  | nil => rfl
  | cons outcome rest inductionHypothesis =>
      rw [List.map_cons, List.sum_cons, ← inductionHypothesis]
      cases outcome with
      | pruned result => rfl
      | skipped skip => exact (Int.zero_add _).symm

/-- The sites of a plan are those of the chunks that it covers. -/
theorem Plan.Covers.toFinset_paths {plan : Plan} {chunks : List Chunk}
    (covers : plan.Covers (numbered chunks)) :
    (plan.groups.map (·.1.path)).toFinset = (chunks.map (·.path)).toFinset := by
  ext path
  rw [List.mem_toFinset, List.mem_toFinset, List.mem_map, List.mem_map]
  constructor
  · rintro ⟨group, member, rfl⟩
    obtain ⟨entry, listed, path⟩ := covers.exists_entry member
    exact ⟨entry.2, mem_numbered listed, path⟩
  · rintro ⟨chunk, member, rfl⟩
    rw [← numbered_map_snd chunks] at member
    obtain ⟨entry, listed, rfl⟩ := List.mem_map.mp member
    obtain ⟨group, groupMember, path⟩ := covers.exists_group listed
    exact ⟨group, groupMember, path.symm⟩

theorem Plan.nodup_paths (plan : Plan) : (plan.groups.map (·.1.path)).Nodup := by
  have distinct := plan.apart.map Site.path_injective
  rwa [List.map_map] at distinct

namespace Pool

variable {engines : Engine → Prop} {merged : MergedUsage} {settings : PruneSettings}
  {chunks : List Chunk} {tree : FileTree} {pool : Pool} {plan : Plan}

/-- The results of the tasks add up, group by group, to what the chunks of the plan have lost. -/
theorem Invariant.map_bytesSaved (linkFree : tree.LinkFree)
    (invariant : pool.Invariant engines merged settings plan tree) (finished : pool.Finished)
    (there : ∀ group ∈ plan.groups, ∃ slot, tree.Holds group.1 slot) :
    pool.tasks.map (fun task => (task.finished.map (·.2.bytesSaved)).sum) =
      plan.groups.map fun group =>
        (tree.sizeAt group.1.path : Int) - pool.bench.tree.sizeAt group.1.path := by
  have length := invariant.length
  refine List.ext_getElem? fun index => ?_
  rw [List.getElem?_map, List.getElem?_map]
  cases found : plan.groups[index]? with
  | none =>
      have outside : pool.tasks[index]? = none := by
        rw [List.getElem?_eq_none_iff, length]
        exact List.getElem?_eq_none_iff.mp found
      rw [outside]
      rfl
  | some group =>
      obtain ⟨before, holds⟩ := there group (List.mem_of_getElem? found)
      obtain ⟨task, after, taskFound, ended, prunes⟩ := invariant.finished finished found holds
      rw [taskFound, Option.map_some, Option.map_some, prunes.sum_bytesSaved,
        holds.sizeAt linkFree, ended.sizeAt invariant.linkFree]

/-- The results of a finished batch add up to what the files of its chunks have lost, each file
counted once. -/
theorem Steps.sum_bytesSaved (linkFree : tree.LinkFree)
    (there : ∀ chunk ∈ chunks, tree.HasSite chunk.path)
    (steps : Steps engines merged settings (.start (.ofTree tree) chunks) pool)
    (finished : pool.Finished) :
    (pool.result.results.map (·.bytesSaved)).sum =
      ∑ path ∈ (chunks.map (·.path)).toFinset,
        ((tree.sizeAt path : Int) - pool.bench.tree.sizeAt path) := by
  obtain ⟨plan, covers, invariant⟩ :=
    steps.exists_invariant linkFree (exists_site_of_hasSite there)
  have held : ∀ group ∈ plan.groups, ∃ slot, tree.Holds group.1 slot := by
    intro group member
    obtain ⟨entry, listed, path⟩ := covers.exists_entry member
    obtain ⟨site, slot, place, holds⟩ := there entry.2 (mem_numbered listed)
    obtain rfl : site = group.1 := Site.path_injective (place.symm.trans path)
    exact ⟨slot, holds⟩
  have perm := List.mergeSort_perm (pool.tasks.flatMap (·.finished)) fun a b => a.1 ≤ b.1
  calc (pool.result.results.map (·.bytesSaved)).sum
    _ = ((inChunkOrder (pool.tasks.flatMap (·.finished))).map (·.bytesSaved)).sum :=
        BatchResult.sum_bytesSaved _
    _ = ((pool.tasks.flatMap (·.finished)).map (·.2.bytesSaved)).sum := by
        rw [inChunkOrder, List.map_map]
        exact (perm.map _).sum_eq
    _ = (pool.tasks.map fun task => (task.finished.map (·.2.bytesSaved)).sum).sum := by
        rw [List.map_flatMap, List.flatMap, List.sum_flatten, List.map_map]
        rfl
    _ = ((plan.groups.map (·.1.path)).map fun path =>
          (tree.sizeAt path : Int) - pool.bench.tree.sizeAt path).sum := by
        rw [invariant.map_bytesSaved linkFree finished held, List.map_map]
        rfl
    _ = ∑ path ∈ (plan.groups.map (·.1.path)).toFinset,
          ((tree.sizeAt path : Int) - pool.bench.tree.sizeAt path) :=
        (List.sum_toFinset _ plan.nodup_paths).symm
    _ = _ := by rw [covers.toFinset_paths]

end Pool

/-! ## The summary -/

/-- Savings that fit are counted as they are. -/
theorem saving_eq_sub {before after : Nat} (beforeFits : before < 2 ^ 63)
    (afterFits : after < 2 ^ 63) : saving before after = (before : Int) - after := by
  have bound : sizeBound = 2 * 2 ^ 63 := rfl
  rw [saving, bound]
  apply Int.bmod_eq_of_le <;> omega

theorem totalSize_eq_total {sizes : List Nat} (fits : total sizes < 2 ^ 63) :
    totalSize sizes = total sizes := by
  have bound : sizeBound = 2 * 2 ^ 63 := rfl
  rw [totalSize, bound]
  exact Nat.mod_eq_of_lt (by omega)

theorem total_sub_total (results : List PruneResult) :
    (total (results.map (·.sizeBefore)) : Int) - total (results.map (·.sizeAfter)) =
      (results.map (·.bytesSaved)).sum := by
  induction results with
  | nil => rfl
  | cons result rest inductionHypothesis =>
      rw [List.map_cons, List.map_cons, List.map_cons, List.sum_cons, ← inductionHypothesis,
        PruneResult.bytesSaved, total, List.foldr_cons, total, List.foldr_cons, total, total]
      omega

/-- The savings of a summary are those of its results, when the totals fit. -/
theorem Summary.totalSaved_ofResults {results : List PruneResult}
    (beforeFits : total (results.map (·.sizeBefore)) < 2 ^ 63)
    (afterFits : total (results.map (·.sizeAfter)) < 2 ^ 63) :
    (ofResults results).totalSaved = (results.map (·.bytesSaved)).sum := by
  have counted : (ofResults results).totalSaved =
      saving (totalSize (results.map (·.sizeBefore))) (totalSize (results.map (·.sizeAfter))) :=
    rfl
  rw [counted, totalSize_eq_total beforeFits, totalSize_eq_total afterFits,
    saving_eq_sub beforeFits afterFits, total_sub_total]

end ChunkPrune
