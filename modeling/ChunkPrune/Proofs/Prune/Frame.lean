import ChunkPrune.Proofs.Prune.Conservation

/-!
# What a batch leaves alone

Pruning a chunk leaves its files as they were, or has a result. So a batch changes files only
where it has results: chunks with new source, and their backups.
-/

namespace ChunkPrune

namespace Slot

variable {slot : Slot} {site : Site}

theorem replace_error {content : ByteArray} {failure : Failure}
    (failed : (slot.replace site content).2 = .error failure) :
    (slot.replace site content).1 = slot := by
  rw [replace] at failed ⊢
  split at failed
  · rfl
  · rfl
  · cases failed

theorem inspect_error {text : String} {content : ByteArray} {failure : Failure}
    (failed : (slot.inspect site text content).2 = .error failure) :
    (slot.inspect site text content).1 = slot := by
  rw [inspect] at failed ⊢
  split at failed
  · rfl
  · rfl
  · split at failed
    next empty =>
      rw [if_pos empty]
      exact replace_error failed
    · cases failed
  · cases failed

/-- Where no backup could be made, nothing has happened. -/
theorem publish_error {text : String} {content : ByteArray} {failure : Failure}
    (failed : (slot.publish site text content).2 = .error failure) :
    (slot.publish site text content).1 = slot := by
  rw [publish] at failed ⊢
  split at failed
  · rfl
  · cases failed
  · exact inspect_error failed

theorem conclude_cases (job : PruneJob) (worth : Except Outcome Draft) :
    (slot.conclude job site worth).1 = slot ∨
      ∃ result, (slot.conclude job site worth).2 = .pruned result ∧
        result.path = job.chunk.path := by
  cases worth with
  | error outcome => exact Or.inl rfl
  | ok draft =>
      rw [conclude]
      cases published : slot.publish site draft.before draft.before.toUTF8 with
      | mk after result =>
          cases result with
          | ok written => exact Or.inr ⟨_, rfl, rfl⟩
          | error failure =>
              apply Or.inl
              have failed := congrArg Prod.snd published
              have same := publish_error failed
              rwa [published] at same

/-- Pruning a chunk leaves the files of its site as they were, or has a result at its path. -/
theorem prune_cases (slot : Slot) (site : Site) (engine : Engine) (merged : MergedUsage)
    (settings : PruneSettings) (chunk : Chunk) :
    (slot.prune engine merged settings site chunk).1 = slot ∨
      ∃ result, (slot.prune engine merged settings site chunk).2 = .pruned result ∧
        result.path = chunk.path := by
  rcases slot.prune_eq_conclude_or_skip engine merged settings site chunk with
    ⟨job, rfl, source, answer, -, concluded⟩ | ⟨cause, reason, passed⟩
  · rw [concluded]
    exact conclude_cases job _
  · rw [passed]
    exact Or.inl rfl

theorem PrunesGroup.cases {engines : Engine → Prop} {merged : MergedUsage}
    {settings : PruneSettings} {after : Slot} {group : List NumberedChunk}
    {outcomes : List NumberedOutcome}
    (prunes : slot.PrunesGroup engines merged settings site group after outcomes)
    (atSite : ∀ entry ∈ group, entry.2.path = site.path) :
    after = slot ∨ ∃ number result, (number, Outcome.pruned result) ∈ outcomes ∧
      result.path = site.path := by
  induction prunes with
  | nil slot => exact Or.inl rfl
  | @cons slot after number chunk rest outcomes engine allowed others inductionHypothesis =>
      have place : chunk.path = site.path := atSite (number, chunk) List.mem_cons_self
      rcases prune_cases slot site engine merged settings chunk with
        same | ⟨result, pruned, path⟩
      · rcases inductionHypothesis fun entry member => atSite entry (List.mem_cons_of_mem _ member)
          with unchanged | ⟨other, result, member, path⟩
        · exact Or.inl (unchanged.trans same)
        · exact Or.inr ⟨other, result, List.mem_cons_of_mem _ member, path⟩
      · refine Or.inr ⟨number, result, ?_, path.trans place⟩
        rw [pruned]
        exact List.mem_cons_self

end Slot

namespace Pool

variable {engines : Engine → Prop} {merged : MergedUsage} {settings : PruneSettings}
  {chunks : List Chunk} {tree : FileTree} {pool : Pool}

theorem mem_results_of_finished {task : GroupTask} {number : Nat} {result : PruneResult}
    (member : task ∈ pool.tasks) (finished : (number, Outcome.pruned result) ∈ task.finished) :
    result ∈ pool.result.results := by
  refine List.mem_filterMap.mpr ⟨.pruned result, ?_, rfl⟩
  refine List.mem_map.mpr ⟨(number, .pruned result), ?_, rfl⟩
  exact (List.mergeSort_perm _ _).mem_iff.mpr (List.mem_flatMap.mpr ⟨task, member, finished⟩)

theorem exists_site_of_hasSite (there : ∀ chunk ∈ chunks, tree.HasSite chunk.path) :
    ∀ chunk ∈ chunks, ∃ site : Site, chunk.path = site.path := by
  intro chunk member
  obtain ⟨site, slot, place, -⟩ := there chunk member
  exact ⟨site, place⟩

/-- A finished batch has changed nothing but the chunks it has results for and their backups. -/
theorem Steps.entry?_eq (linkFree : tree.LinkFree)
    (there : ∀ chunk ∈ chunks, tree.HasSite chunk.path)
    (steps : Steps engines merged settings (.start (.ofTree tree) chunks) pool)
    (finished : pool.Finished) {location : Location}
    (outside : ∀ result ∈ pool.result.results, ∀ site : Site, result.path = site.path →
      ¬ site.Places location) :
    pool.bench.tree.entry? location = tree.entry? location := by
  obtain ⟨plan, covers, invariant⟩ :=
    steps.exists_invariant linkFree (exists_site_of_hasSite there)
  by_cases planned : plan.Places location
  · obtain ⟨⟨site, group⟩, member, place⟩ := planned
    obtain ⟨entry, listed, path⟩ := covers.exists_entry member
    obtain ⟨own, before, ownPath, holds⟩ := there entry.2 (mem_numbered listed)
    obtain rfl : own = site := Site.path_injective (ownPath.symm.trans path)
    obtain ⟨index, found⟩ := List.getElem?_of_mem member
    obtain ⟨task, after, taskFound, ended, prunes⟩ := invariant.finished finished found holds
    rcases prunes.cases (plan.atSite _ member) with rfl | ⟨number, result, settled, resultPath⟩
    · rcases place with rfl | rfl
      · rw [ended.chunk, holds.chunk]
      · rw [ended.backup, holds.backup]
    · have reported := mem_results_of_finished (List.mem_of_getElem? taskFound) settled
      exact absurd place (outside result reported own resultPath)
  · exact invariant.evolves.entry?_eq planned

end Pool

/-- A result belongs to one of the chunks. -/
theorem BatchResult.Settles.exists_chunk {chunks : List Chunk} {batch : BatchResult}
    (settles : batch.Settles chunks) {result : PruneResult} (member : result ∈ batch.results) :
    ∃ chunk ∈ chunks, (Outcome.pruned result).Concerns chunk := by
  obtain ⟨outcomes, concerns, rfl⟩ := settles
  obtain ⟨outcome, listed, isResult⟩ := List.mem_filterMap.mp member
  cases outcome with
  | skipped skip => cases isResult
  | pruned other =>
      cases isResult
      induction concerns with
      | nil => exact absurd listed List.not_mem_nil
      | cons first others inductionHypothesis =>
          rcases List.mem_cons.mp listed with rfl | listed
          · exact ⟨_, List.mem_cons_self, first⟩
          · obtain ⟨chunk, chunkMember, about⟩ := inductionHypothesis
              (List.mem_filterMap.mpr ⟨_, listed, rfl⟩) listed
            exact ⟨chunk, List.mem_cons_of_mem _ chunkMember, about⟩

end ChunkPrune
