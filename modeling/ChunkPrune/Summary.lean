import ChunkPrune.Prune.Outcome

/-!
# The account of a run

Totals over all pruned chunks, and the same figures for each library. The totals
are never clamped: a run that makes files larger has a negative saving.
-/

namespace ChunkPrune

structure LibraryFigures where
  library : String
  chunks : Nat
  sizeBefore : Nat
  sizeAfter : Nat
  modulesPruned : Nat
  modulesKept : Nat
  deriving DecidableEq, Repr

def total (numbers : List Nat) : Nat := numbers.foldr (· + ·) 0

/-- A sum of sizes, counted in 64 bits. -/
def totalSize (sizes : List Nat) : Nat := total sizes % sizeBound

namespace LibraryFigures

def saved (stats : LibraryFigures) : Int := saving stats.sizeBefore stats.sizeAfter

def reduction (stats : LibraryFigures) : Binary64 := percent stats.saved stats.sizeBefore

/-- The figures of a library from its results. Chunks that the engine declined to
prune have no modules to count. -/
def ofResults (library : String) (results : List PruneResult) : LibraryFigures :=
  let counted := results.filter (·.prune.skipReason.isNone)
  { library
    chunks := results.length
    sizeBefore := totalSize (results.map (·.sizeBefore))
    sizeAfter := totalSize (results.map (·.sizeAfter))
    modulesPruned := total (counted.map (·.prune.removedCount))
    modulesKept := total (counted.map (·.prune.keptCount)) }

end LibraryFigures

/-- The results of each library in their order, libraries in the order of names. -/
def byLibrary (results : List PruneResult) : List (String × List PruneResult) :=
  (results.foldl
    (fun groups result =>
      Table.unionWith (· ++ ·) groups (Table.singleton result.library [result]))
    (Table.empty : Table String (List PruneResult))).entries

structure Summary where
  chunks : Nat
  totalBefore : Nat
  totalAfter : Nat
  modulesKept : Nat
  modulesPruned : Nat
  libraries : List LibraryFigures
  deriving DecidableEq, Repr

namespace Summary

/-- The number of libraries listed with the largest savings. -/
def topLimit : Nat := 5

/-- The summary of some results. Libraries stand by what they save, the largest
saving first, and by name where savings are equal. -/
def ofResults (results : List PruneResult) : Summary :=
  let libraries := ((byLibrary results).map fun (library, results) =>
    LibraryFigures.ofResults library results).mergeSort fun a b => b.saved ≤ a.saved
  { chunks := results.length
    totalBefore := totalSize (results.map (·.sizeBefore))
    totalAfter := totalSize (results.map (·.sizeAfter))
    modulesKept := total (libraries.map (·.modulesKept))
    modulesPruned := total (libraries.map (·.modulesPruned))
    libraries }

def totalSaved (summary : Summary) : Int :=
  saving summary.totalBefore summary.totalAfter

def totalReduction (summary : Summary) : Binary64 :=
  percent summary.totalSaved summary.totalBefore

def isGrowth (summary : Summary) : Bool := summary.totalSaved < 0

/-- The first libraries that became smaller. -/
def largestSavings (summary : Summary) (limit : Nat) : List LibraryFigures :=
  (summary.libraries.filter fun stats => 0 < stats.saved).take limit

/-- The libraries that grew, the largest growth first. -/
def grown (summary : Summary) : List LibraryFigures :=
  (summary.libraries.filter fun stats => stats.saved < 0).mergeSort
    fun a b => a.saved ≤ b.saved

def modulesSeen (summary : Summary) : Nat := summary.modulesKept + summary.modulesPruned

/-- The part of the modules that was pruned, in percent. -/
def prunedShare (summary : Summary) : Binary64 :=
  percent summary.modulesPruned summary.modulesSeen

end Summary

end ChunkPrune
