import ChunkPrune.Binary64
import ChunkPrune.Chunk
import ChunkPrune.Engine.Answer

/-!
# Outcomes

Each chunk has one outcome: it was pruned, with its sizes before and after, or it was
passed over for a reason. Sizes are counted in 64 bits.
-/

namespace ChunkPrune

/-- The number of values of a size. -/
def sizeBound : Nat := Nat.pow 2 64

/-- The bytes saved, as a signed number of 64 bits; negative when the size grew. -/
def saving (before after : Nat) : Int :=
  Int.bmod ((before : Int) - after) sizeBound

/-- One number as a percentage of another; zero when the other is. -/
def percent (part : Int) (whole : Nat) : Binary64 :=
  if whole = 0 then .zero
  else
    (do
      let ratio ← (← Binary64.ofInt? part).div? (← Binary64.ofNat? whole)
      ratio.mul? (← Binary64.ofNat? 100)).getD .zero

structure PruneResult where
  app : String
  fileName : String
  library : String
  path : Path
  sizeBefore : Nat
  sizeAfter : Nat
  prune : ModuleReport
  backupWritten : Bool
  deriving DecidableEq

namespace PruneResult

def saved (result : PruneResult) : Int := saving result.sizeBefore result.sizeAfter

/-- The part of the size that was saved, in percent; negative when the chunk grew. -/
def reduction (result : PruneResult) : Binary64 := percent result.saved result.sizeBefore

end PruneResult

inductive SkipCause where
  | unsafeToPrune
  | notApplied
  | failed
  deriving DecidableEq, Repr

structure Skip where
  app : String
  fileName : String
  library : String
  cause : SkipCause
  reason : String
  deriving DecidableEq, Repr

inductive Outcome where
  | pruned (result : PruneResult)
  | skipped (skipped : Skip)
  deriving DecidableEq

namespace Outcome

def skip (chunk : Chunk) (cause : SkipCause) (reason : String) : Outcome :=
  .skipped ⟨chunk.app, chunk.fileName, chunk.library, cause, reason⟩

/-- The outcome of a failure: it stays with its chunk. -/
def ofFailure (chunk : Chunk) (failure : Failure) : Outcome :=
  skip chunk .failed failure.summary

def result? : Outcome → Option PruneResult
  | pruned result => some result
  | skipped _ => none

def skipped? : Outcome → Option Skip
  | pruned _ => none
  | skipped s => some s

end Outcome

end ChunkPrune
