import Mathlib.Algebra.Order.BigOperators.Group.List
import Mathlib.Algebra.Order.Group.Nat
import ChunkPrune.Proofs.Prune.Savings
import ChunkPrune.Proofs.Summary.Ranked

/-!
# A summary is the account of its results

The figures of a library are counted over its results, and the totals are those of the libraries.
As long as the sizes fit, no saving is cut off, so that growth is told apart from savings.
-/

namespace ChunkPrune

/-- The figures of a library, counted over the results with its name. -/
structure LibraryFigures.Counts (results : List PruneResult) (figures : LibraryFigures) :
    Prop where
  chunks : figures.chunks = (resultsOf figures.library results).length
  sizeBefore : figures.sizeBefore =
    ((resultsOf figures.library results).map (·.sizeBefore)).sum
  sizeAfter : figures.sizeAfter = ((resultsOf figures.library results).map (·.sizeAfter)).sum
  saved : figures.saved = (figures.sizeBefore : Int) - figures.sizeAfter
  modulesKept : figures.modulesKept =
    (((resultsOf figures.library results).filter fun result =>
      result.prune.skipReason.isNone).map (·.prune.keptCount)).sum
  modulesPruned : figures.modulesPruned =
    (((resultsOf figures.library results).filter fun result =>
      result.prune.skipReason.isNone).map (·.prune.removedCount)).sum

/-- A summary has each library of the results once, with its figures and in its rank, and the
totals are those of the libraries. -/
structure Summary.Accounts (results : List PruneResult) (summary : Summary) : Prop where
  nodup : (summary.libraries.map (·.library)).Nodup
  library_iff : ∀ library, library ∈ summary.libraries.map (·.library) ↔
    ∃ result ∈ results, result.library = library
  counts : ∀ figures ∈ summary.libraries, figures.Counts results
  chunks : summary.chunks = (summary.libraries.map (·.chunks)).sum
  totalBefore : summary.totalBefore = (summary.libraries.map (·.sizeBefore)).sum
  totalAfter : summary.totalAfter = (summary.libraries.map (·.sizeAfter)).sum
  totalSaved : summary.totalSaved = (summary.libraries.map (·.saved)).sum
  modulesKept : summary.modulesKept = (summary.libraries.map (·.modulesKept)).sum
  modulesPruned : summary.modulesPruned = (summary.libraries.map (·.modulesPruned)).sum
  ranked : summary.libraries.Pairwise LibraryFigures.Outranks
  largestSavings : ∀ limit, summary.largestSavings limit =
    (summary.libraries.filter fun figures => 0 < figures.saved).take limit
  grown : summary.grown.Perm (summary.libraries.filter fun figures => figures.saved < 0)
  grown_ranked : summary.grown.Pairwise LibraryFigures.Outgrows
  isGrowth_iff : summary.isGrowth = true ↔ summary.totalBefore < summary.totalAfter

/-! ## Sums over libraries -/

namespace Summary

theorem libraries_ranking_perm (results : List PruneResult) :
    ((ranking results).map (·.library)).Perm ((byLibrary results).map (·.1)) := by
  refine ((ranking_perm results).map _).trans (.of_eq ?_)
  rw [figuresByName, List.map_map]
  rfl

/-- What is added up over the libraries of a summary, is added up over the groups. -/
theorem sum_ranking {M : Type} [AddCommMonoid M] (value : LibraryFigures → M)
    (results : List PruneResult) :
    ((ranking results).map value).sum =
      ((byLibrary results).map fun group =>
        value (LibraryFigures.ofResults group.1 group.2)).sum := by
  rw [((ranking_perm results).map value).sum_eq, figuresByName, List.map_map]
  rfl

/-- Figures that are counted for each library by itself add up to those of all results. -/
theorem sum_ranking_eq {M : Type} [AddCommMonoid M] {results : List PruneResult}
    {figure : LibraryFigures → M} {value : PruneResult → M}
    (counted : ∀ group ∈ byLibrary results,
      figure (.ofResults group.1 group.2) = (group.2.map value).sum) :
    ((ranking results).map figure).sum = (results.map value).sum := by
  rw [sum_ranking, List.map_congr_left counted, sum_byLibrary]

end Summary

/-! ## The figures of a library -/

theorem total_resultsOf_le (library : String) (results : List PruneResult)
    (size : PruneResult → Nat) :
    total ((resultsOf library results).map size) ≤ total (results.map size) := by
  rw [total_eq_sum, total_eq_sum]
  exact ((List.filter_sublist).map size).sum_le_sum fun _ _ => Nat.zero_le _

section Fits

variable {results : List PruneResult}
  (beforeFits : total (results.map (·.sizeBefore)) < 2 ^ 63)
  (afterFits : total (results.map (·.sizeAfter)) < 2 ^ 63)

include beforeFits afterFits

theorem LibraryFigures.counts_ofResults (library : String) :
    (ofResults library (resultsOf library results)).Counts results := by
  have before := Nat.lt_of_le_of_lt (total_resultsOf_le library results (·.sizeBefore)) beforeFits
  have after := Nat.lt_of_le_of_lt (total_resultsOf_le library results (·.sizeAfter)) afterFits
  have sizeBefore := totalSize_eq_total before
  have sizeAfter := totalSize_eq_total after
  refine ⟨rfl, sizeBefore, sizeAfter, saving_eq_sub ?_ ?_, rfl, rfl⟩
  · exact sizeBefore.trans_lt before
  · exact sizeAfter.trans_lt after

namespace Summary

theorem counts_of_mem {figures : LibraryFigures} (member : figures ∈ ranking results) :
    figures.Counts results := by
  obtain ⟨⟨library, group⟩, listed, rfl⟩ :=
    List.mem_map.mp ((ranking_perm results).mem_iff.mp member)
  obtain ⟨rfl, -⟩ := mem_byLibrary_iff.mp listed
  exact LibraryFigures.counts_ofResults beforeFits afterFits library

/-- What figures count over the results of their library, adds up to the sum over all results. -/
theorem sum_ranking_of_counts {M : Type} [AddCommMonoid M] {figure : LibraryFigures → M}
    {value : PruneResult → M}
    (counted : ∀ figures : LibraryFigures, figures.Counts results →
      figure figures = ((resultsOf figures.library results).map value).sum) :
    ((ranking results).map figure).sum = (results.map value).sum := by
  apply sum_ranking_eq
  rintro ⟨library, group⟩ member
  obtain ⟨rfl, -⟩ := mem_byLibrary_iff.mp member
  exact counted _ (LibraryFigures.counts_ofResults beforeFits afterFits library)

end Summary

end Fits

/-- The summary of results accounts for them, whichever order they come in, as long as the sizes
add up to less than half of what a number can tell. -/
theorem Summary.ofResults_accounts {results : List PruneResult}
    (beforeFits : total (results.map (·.sizeBefore)) < 2 ^ 63)
    (afterFits : total (results.map (·.sizeAfter)) < 2 ^ 63) :
    (ofResults results).Accounts results ∧
      ∀ others, results.Perm others → ofResults others = ofResults results := by
  have sizeBefore := sum_ranking_of_counts beforeFits afterFits fun _ counts => counts.sizeBefore
  have sizeAfter := sum_ranking_of_counts beforeFits afterFits fun _ counts => counts.sizeAfter
  have saved : ((ranking results).map (·.saved)).sum = (results.map (·.bytesSaved)).sum := by
    refine sum_ranking_of_counts beforeFits afterFits fun figures counts => ?_
    rw [counts.saved, counts.sizeBefore, counts.sizeAfter]
    exact total_sub_total _
  have chunks : ((ranking results).map (·.chunks)).sum = (results.map fun _ => 1).sum := by
    refine sum_ranking_of_counts beforeFits afterFits fun figures counts => ?_
    rw [counts.chunks]
    simp
  have totalBefore := totalSize_eq_total beforeFits
  have totalAfter := totalSize_eq_total afterFits
  have totalSaved := totalSaved_ofResults beforeFits afterFits
  have difference : (ofResults results).totalSaved =
      ((ofResults results).totalBefore : Int) - (ofResults results).totalAfter :=
    saving_eq_sub (totalBefore.trans_lt beforeFits) (totalAfter.trans_lt afterFits)
  refine ⟨?_, fun others perm => (ofResults_eq_of_perm perm).symm⟩
  exact
    { nodup := (libraries_ranking_perm results).nodup_iff.mpr (resultTable results).nodup_keys
      library_iff := fun library =>
        (libraries_ranking_perm results).mem_iff.trans mem_libraries_byLibrary_iff
      counts := fun figures member => counts_of_mem beforeFits afterFits member
      chunks := by
        rw [ofResults_eq, chunks]
        simp
      totalBefore := totalBefore.trans sizeBefore.symm
      totalAfter := totalAfter.trans sizeAfter.symm
      totalSaved := totalSaved.trans saved.symm
      modulesKept := rfl
      modulesPruned := rfl
      ranked := pairwise_outranks results
      largestSavings := fun limit => rfl
      grown := List.mergeSort_perm _ _
      grown_ranked := pairwise_outgrows results
      isGrowth_iff := by
        rw [isGrowth, decide_eq_true_iff, difference]
        omega }

/-! ## Equal savings, a growth and a chunk that was not pruned -/

def sizedResult (app library : String) (before after : Nat) (skipReason : Option String) :
    PruneResult where
  app := app
  fileName := "a.js"
  library := library
  path := ⟨"/dist/a.js"⟩
  sizeBefore := before
  sizeAfter := after
  prune := ⟨none, some ["k"], some ["r", "s"], skipReason⟩
  backupWritten := true

/-- Two libraries save as much, and come against the order of their names; a third one grows. -/
def mixedResults : List PruneResult :=
  [sizedResult "host" "b" 10 7 none, sizedResult "host" "c" 5 9 none,
    sizedResult "host" "a" 8 6 none, sizedResult "remote" "a" 4 3 (some "no runtime")]

theorem ofResults_accounts_mixedResults :
    total (mixedResults.map (·.sizeBefore)) < 2 ^ 63 ∧
      total (mixedResults.map (·.sizeAfter)) < 2 ^ 63 ∧
      (Summary.ofResults mixedResults).Accounts mixedResults ∧
      Summary.ofResults mixedResults.reverse = Summary.ofResults mixedResults := by
  have before : total (mixedResults.map (·.sizeBefore)) < 2 ^ 63 := by decide
  have after : total (mixedResults.map (·.sizeAfter)) < 2 ^ 63 := by decide
  obtain ⟨accounts, same⟩ := Summary.ofResults_accounts before after
  exact ⟨before, after, accounts, same _ (List.reverse_perm mixedResults).symm⟩

end ChunkPrune
