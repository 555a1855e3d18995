import ChunkPrune.Proofs.Summary.Grouped

/-!
# Rankings of libraries

Libraries are ranked by a stable sort. Before it they stand in the order of their names, so that
libraries with equal savings stay in this order, and no two of them have the same rank.
-/

namespace ChunkPrune

universe u

/-- After a stable sort, items that compare either way are still related as before it. -/
theorem pairwise_mergeSort_of_pairwise {α : Type u} {le : α → α → Bool} {R : α → α → Prop}
    (trans : ∀ a b c, le a b = true → le b c = true → le a c = true)
    (total : ∀ a b, (le a b || le b a) = true) {items : List α} (ordered : items.Pairwise R) :
    (items.mergeSort le).Pairwise fun a b => le a b = true ∧ (le b a = true → R a b) := by
  -- the items are sorted together with their places in the list, which tell equal ones apart
  rw [← List.mergeSort_zipIdx, List.pairwise_map]
  have perm := List.mergeSort_perm items.zipIdx (List.zipIdxLE le)
  have sorted := List.pairwise_mergeSort (List.zipIdxLE_trans trans) (List.zipIdxLE_total total)
    items.zipIdx
  have distinct : (items.zipIdx.mergeSort (List.zipIdxLE le)).Pairwise fun a b => a.2 ≠ b.2 := by
    apply List.pairwise_map.mp
    apply (perm.map (·.2)).nodup_iff.mpr
    rw [List.zipIdx_map_snd]
    exact List.nodup_range'
  refine (sorted.and distinct).imp_of_mem ?_
  rintro ⟨a, i⟩ ⟨b, j⟩ memberA memberB ⟨below, different⟩
  have placeA := List.mem_zipIdx_iff_getElem?.mp (perm.mem_iff.mp memberA)
  have placeB := List.mem_zipIdx_iff_getElem?.mp (perm.mem_iff.mp memberB)
  simp only [List.zipIdxLE] at below
  split at below
  next first =>
    refine ⟨first, fun second => ?_⟩
    rw [if_pos second, decide_eq_true_eq] at below
    have earlier : i < j := Nat.lt_of_le_of_ne below different
    obtain ⟨insideA, hereA⟩ := List.getElem?_eq_some_iff.mp placeA
    obtain ⟨insideB, hereB⟩ := List.getElem?_eq_some_iff.mp placeB
    have related := List.pairwise_iff_getElem.mp ordered i j insideA insideB earlier
    rwa [hereA, hereB] at related
  next => cases below

namespace LibraryFigures

/-- The first library saves more than the second, or as much and has the smaller name. -/
def Outranks (first second : LibraryFigures) : Prop :=
  second.saved < first.saved ∨ first.saved = second.saved ∧ first.library < second.library

/-- The first library grew more than the second, or as much and has the smaller name. -/
def Outgrows (first second : LibraryFigures) : Prop :=
  first.saved < second.saved ∨ first.saved = second.saved ∧ first.library < second.library

theorem outgrows_of_outranks {first second : LibraryFigures} (outranks : first.Outranks second)
    (grown : first.saved ≤ second.saved) : first.Outgrows second := by
  rcases outranks with more | ⟨same, name⟩
  · omega
  · exact Or.inr ⟨same, name⟩

end LibraryFigures

namespace Summary

variable {results : List PruneResult}

/-- The figures of each library, in the order of names. -/
def figuresByName (results : List PruneResult) : List LibraryFigures :=
  (byLibrary results).map fun group => .ofResults group.1 group.2

/-- The figures of all libraries in the order of their ranks. -/
def ranking (results : List PruneResult) : List LibraryFigures :=
  (figuresByName results).mergeSort fun first second => second.saved ≤ first.saved

theorem ofResults_eq (results : List PruneResult) :
    ofResults results =
      { chunks := results.length
        totalBefore := totalSize (results.map (·.sizeBefore))
        totalAfter := totalSize (results.map (·.sizeAfter))
        modulesKept := total ((ranking results).map (·.modulesKept))
        modulesPruned := total ((ranking results).map (·.modulesPruned))
        libraries := ranking results } := rfl

theorem ranking_perm (results : List PruneResult) :
    (ranking results).Perm (figuresByName results) :=
  List.mergeSort_perm _ _

theorem pairwise_figuresByName (results : List PruneResult) :
    (figuresByName results).Pairwise fun first second => first.library < second.library := by
  rw [figuresByName, List.pairwise_map]
  exact pairwise_byLibrary results

/-- No two libraries of a summary have the same rank. -/
theorem pairwise_outranks (results : List PruneResult) :
    (ranking results).Pairwise LibraryFigures.Outranks := by
  rw [ranking]
  refine (pairwise_mergeSort_of_pairwise ?_ ?_ (pairwise_figuresByName results)).imp ?_
  · intro first second third below above
    simp only [decide_eq_true_eq] at below above ⊢
    omega
  · intro first second
    simp only [Bool.or_eq_true, decide_eq_true_eq]
    omega
  · rintro first second ⟨below, tie⟩
    simp only [decide_eq_true_eq] at below tie
    by_cases same : first.saved ≤ second.saved
    · exact Or.inr ⟨by omega, tie same⟩
    · exact Or.inl (by omega)

/-- The libraries that grew stand in order, too: the sort keeps the ranks of equal growths. -/
theorem pairwise_outgrows (results : List PruneResult) :
    (ofResults results).grown.Pairwise LibraryFigures.Outgrows := by
  have ranked := (pairwise_outranks results).filter fun figures => figures.saved < 0
  rw [grown, ofResults_eq]
  refine (pairwise_mergeSort_of_pairwise ?_ ?_ ranked).imp ?_
  · intro first second third below above
    simp only [decide_eq_true_eq] at below above ⊢
    omega
  · intro first second
    simp only [Bool.or_eq_true, decide_eq_true_eq]
    omega
  · rintro first second ⟨below, tie⟩
    simp only [decide_eq_true_eq] at below tie
    by_cases same : second.saved ≤ first.saved
    · exact LibraryFigures.outgrows_of_outranks (tie same) below
    · exact Or.inl (by omega)

end Summary

/-! ## Results in another order -/

theorem total_eq_sum (numbers : List Nat) : total numbers = numbers.sum := rfl

theorem total_perm {numbers others : List Nat} (perm : numbers.Perm others) :
    total numbers = total others := by
  rw [total_eq_sum, total_eq_sum, perm.sum_eq]

theorem totalSize_perm {sizes others : List Nat} (perm : sizes.Perm others) :
    totalSize sizes = totalSize others := by
  rw [totalSize, totalSize, total_perm perm]

theorem LibraryFigures.ofResults_perm {results others : List PruneResult} (library : String)
    (perm : results.Perm others) : ofResults library results = ofResults library others := by
  have counted := perm.filter fun result => result.prune.skipReason.isNone
  simp only [ofResults, perm.length_eq, totalSize_perm (perm.map _), total_perm (counted.map _)]

/-- The figures of all libraries, as the values of a table. -/
theorem Summary.figuresByName_eq_values (results : List PruneResult) :
    figuresByName results = ((resultTable results).map LibraryFigures.ofResults).values := by
  rw [figuresByName, Table.values, Table.map, List.map_map]
  rfl

theorem Summary.figuresByName_perm {results others : List PruneResult}
    (perm : results.Perm others) : figuresByName results = figuresByName others := by
  rw [figuresByName_eq_values, figuresByName_eq_values]
  refine congrArg Table.values (Table.ext_get? fun library => ?_)
  have group := resultsOf_perm perm library
  rw [Table.get?_map, Table.get?_map, get?_resultTable, get?_resultTable]
  by_cases empty : resultsOf library others = []
  · rw [empty] at group
    rw [if_pos empty, if_pos group.eq_nil]
  · have filled : resultsOf library results ≠ [] := by
      intro none
      rw [none] at group
      exact empty group.nil_eq.symm
    rw [if_neg empty, if_neg filled, Option.map_some, Option.map_some,
      LibraryFigures.ofResults_perm library group]

/-- The order of the results does not matter for their summary. -/
theorem Summary.ofResults_eq_of_perm {results others : List PruneResult}
    (perm : results.Perm others) : ofResults results = ofResults others := by
  rw [ofResults_eq, ofResults_eq, ranking, ranking, figuresByName_perm perm, perm.length_eq,
    totalSize_perm (perm.map (·.sizeBefore)), totalSize_perm (perm.map (·.sizeAfter))]

end ChunkPrune
