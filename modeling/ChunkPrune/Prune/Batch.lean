import ChunkPrune.Prune.Job

/-!
# Pruning many chunks

Chunks at one path are one group, whose chunks are handled one after another. Groups
do not depend on each other. The outcomes come in the order of the chunks.
-/

namespace ChunkPrune

/-- A chunk with its place in the list of all chunks. -/
abbrev NumberedChunk := Nat × Chunk

/-- Put a chunk into the group of its path, or into a new one at the end. -/
def addToGroups (entry : NumberedChunk) : List (List NumberedChunk) → List (List NumberedChunk)
  | [] => [[entry]]
  | group :: rest =>
    if group.any fun other => other.2.path.sameSteps entry.2.path then
      (group ++ [entry]) :: rest
    else group :: addToGroups entry rest

/-- The chunks by path, in the order in which the paths come first. -/
def pathGroups (chunks : List Chunk) : List (List NumberedChunk) :=
  chunks.zipIdx.foldl (fun groups (chunk, index) => addToGroups (index, chunk) groups) []

/-- An outcome with the place of its chunk. -/
abbrev NumberedOutcome := Nat × Outcome

/-- Prune the chunks of one group in their order. -/
def pruneGroup (merged : MergedUsage) (settings : PruneSettings) (bench : Workbench) :
    List NumberedChunk → Workbench × List NumberedOutcome
  | [] => (bench, [])
  | (index, chunk) :: rest =>
    let first := chunk.prune merged settings bench
    let others := pruneGroup merged settings first.1 rest
    (others.1, (index, first.2) :: others.2)

def pruneGroups (merged : MergedUsage) (settings : PruneSettings) (bench : Workbench) :
    List (List NumberedChunk) → Workbench × List NumberedOutcome
  | [] => (bench, [])
  | group :: rest =>
    let first := pruneGroup merged settings bench group
    let others := pruneGroups merged settings first.1 rest
    (others.1, first.2 ++ others.2)

/-- The results and the chunks passed over, each in the order of the chunks. -/
structure BatchResult where
  results : List PruneResult
  skipped : List Skip
  deriving DecidableEq

def BatchResult.ofOutcomes (outcomes : List Outcome) : BatchResult :=
  ⟨outcomes.filterMap Outcome.result?, outcomes.filterMap Outcome.skipped?⟩

/-- Numbered outcomes in the order of their numbers. -/
def inChunkOrder (outcomes : List NumberedOutcome) : List Outcome :=
  (outcomes.mergeSort fun a b => a.1 ≤ b.1).map (·.2)

/-- Prune all chunks, group by group. -/
def pruneChunks (merged : MergedUsage) (settings : PruneSettings) (bench : Workbench)
    (chunks : List Chunk) : Workbench × BatchResult :=
  let (bench, outcomes) := pruneGroups merged settings bench (pathGroups chunks)
  (bench, .ofOutcomes (inChunkOrder outcomes))

/-- Prune all chunks one after another, in the order of the list. -/
def pruneInOrder (merged : MergedUsage) (settings : PruneSettings) (bench : Workbench)
    (chunks : List Chunk) : Workbench × BatchResult :=
  let (bench, outcomes) :=
    pruneGroup merged settings bench (chunks.zipIdx.map fun (chunk, index) => (index, chunk))
  (bench, .ofOutcomes (outcomes.map (·.2)))

end ChunkPrune
