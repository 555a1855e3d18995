import Mathlib.Algebra.BigOperators.Group.List.Basic
import Mathlib.Algebra.GroupWithZero.Nat
import Mathlib.Data.List.Induction
import ChunkPrune.Proofs.Table.Entry
import ChunkPrune.Summary

/-!
# Results by library

The group of a library has the results with its name, in the order in which they come. Every
result stands in one group only, so what is added up over the groups is added up over the results.
-/

namespace ChunkPrune

universe u v

/-! ## A table of lists -/

section Lists

variable {κ : Type u} {α : Type v} [LT κ] [DecidableLT κ]

theorem Entries.unionWith_nil (f : α → α → α) (entries : List (κ × α)) :
    unionWith f entries [] = entries := by
  cases entries with
  | nil => rw [unionWith]
  | cons head rest => simp [unionWith]

/-- A value that is added under a key stands once more in the lists of a table. -/
theorem Entries.flatMap_unionWith_singleton (key : κ) (value : α) (entries : List (κ × List α)) :
    ((unionWith (· ++ ·) entries [(key, [value])]).flatMap (·.2)).Perm
      (entries.flatMap (·.2) ++ [value]) := by
  induction entries with
  | nil => simp [unionWith]
  | cons head rest inductionHypothesis =>
      obtain ⟨first, values⟩ := head
      rw [unionWith]
      split
      · simp only [List.flatMap_cons, List.append_assoc]
        exact inductionHypothesis.append_left values
      · split
        · rw [unionWith_nil]
          exact List.perm_append_comm
        · rw [unionWith_nil]
          simp only [List.flatMap_cons, List.append_assoc]
          exact List.perm_append_comm.append_left values

end Lists

/-- The results of each library, by the name of the library. -/
def resultTable (results : List PruneResult) : Table String (List PruneResult) :=
  results.foldl
    (fun groups result =>
      Table.unionWith (· ++ ·) groups (Table.singleton result.library [result]))
    Table.empty

theorem byLibrary_eq_entries (results : List PruneResult) :
    byLibrary results = (resultTable results).entries := rfl

theorem resultTable_concat (results : List PruneResult) (result : PruneResult) :
    resultTable (results ++ [result]) =
      Table.unionWith (· ++ ·) (resultTable results)
        (Table.singleton result.library [result]) := by
  rw [resultTable, List.foldl_append]
  rfl

/-- The results with the name of a library. -/
def resultsOf (library : String) (results : List PruneResult) : List PruneResult :=
  results.filter (·.library = library)

theorem resultsOf_concat (library : String) (results : List PruneResult) (result : PruneResult) :
    resultsOf library (results ++ [result]) =
      resultsOf library results ++ if result.library = library then [result] else [] := by
  by_cases own : result.library = library
  · simp [resultsOf, own]
  · simp [resultsOf, own]

theorem get?_resultTable (results : List PruneResult) (library : String) :
    (resultTable results).get? library =
      if resultsOf library results = [] then none else some (resultsOf library results) := by
  induction results using List.reverseRecOn with
  | nil => rfl
  | append_singleton results result inductionHypothesis =>
      rw [resultTable_concat, Table.get?_unionWith, inductionHypothesis, Table.get?_singleton,
        resultsOf_concat]
      by_cases own : result.library = library
      · by_cases first : resultsOf library results = []
        · simp [own, first]
        · simp [own, first]
      · by_cases first : resultsOf library results = []
        · simp [own, first]
        · simp [own, first]

variable {results : List PruneResult}

/-- The group of a library has all its results, in their order, and there is one if there are
any results. -/
theorem mem_byLibrary_iff {library : String} {group : List PruneResult} :
    (library, group) ∈ byLibrary results ↔ group = resultsOf library results ∧ group ≠ [] := by
  rw [byLibrary_eq_entries, Table.mem_entries_iff, get?_resultTable]
  by_cases none : resultsOf library results = []
  · simp [none]
  · simp only [none, if_false, Option.some.injEq]
    constructor
    · rintro rfl
      exact ⟨rfl, none⟩
    · rintro ⟨same, -⟩
      exact same.symm

/-- The names of the groups stand in order, each once. -/
theorem pairwise_byLibrary (results : List PruneResult) :
    (byLibrary results).Pairwise fun first second => first.1 < second.1 :=
  (resultTable results).ordered

theorem mem_libraries_byLibrary_iff {library : String} :
    library ∈ (byLibrary results).map (·.1) ↔ ∃ result ∈ results, result.library = library := by
  constructor
  · intro member
    obtain ⟨⟨name, group⟩, listed, rfl⟩ := List.mem_map.mp member
    obtain ⟨rfl, filled⟩ := mem_byLibrary_iff.mp listed
    obtain ⟨result, own⟩ := List.exists_mem_of_ne_nil _ filled
    exact ⟨result, by simpa [resultsOf] using own⟩
  · rintro ⟨result, member, rfl⟩
    have own : result ∈ resultsOf result.library results := by simp [resultsOf, member]
    exact List.mem_map.mpr ⟨_, mem_byLibrary_iff.mpr ⟨rfl, List.ne_nil_of_mem own⟩, rfl⟩

/-- Every result stands in the groups as often as in the list. -/
theorem flatMap_byLibrary_perm (results : List PruneResult) :
    ((byLibrary results).flatMap (·.2)).Perm results := by
  induction results using List.reverseRecOn with
  | nil => exact .refl _
  | append_singleton results result inductionHypothesis =>
      rw [byLibrary_eq_entries, resultTable_concat]
      exact (Entries.flatMap_unionWith_singleton _ _ _).trans
        (inductionHypothesis.append_right [result])

/-- What is added up in each group, and then over the groups, is added up over all results. -/
theorem sum_byLibrary {M : Type u} [AddCommMonoid M] (value : PruneResult → M)
    (results : List PruneResult) :
    ((byLibrary results).map fun group => (group.2.map value).sum).sum =
      (results.map value).sum := by
  calc ((byLibrary results).map fun group => (group.2.map value).sum).sum
    _ = (((byLibrary results).flatMap (·.2)).map value).sum := by
        rw [List.map_flatMap, List.flatMap, List.sum_flatten, List.map_map]
        rfl
    _ = (results.map value).sum := ((flatMap_byLibrary_perm results).map value).sum_eq

theorem resultsOf_perm {other : List PruneResult} (perm : results.Perm other) (library : String) :
    (resultsOf library results).Perm (resultsOf library other) :=
  perm.filter _

end ChunkPrune
