import Mathlib.Data.List.Sort
import ChunkPrune.Path

/-!
# The order of paths

Paths are ordered by the first step that differs. The order compares any two paths, so paths
that are sorted by it stand in order.
-/

namespace ChunkPrune.Path

namespace Component

theorem le_total (first second : Component) : first.le second = true ∨ second.le first = true := by
  cases first <;> cases second <;> simp [le, rank, String.le_total]

theorem le_trans {first second third : Component} (below : first.le second = true)
    (above : second.le third = true) : first.le third = true := by
  cases first <;> cases second <;> cases third <;> simp_all [le, rank]
  exact String.le_trans below above

theorem le_antisymm {first second : Component} (below : first.le second = true)
    (above : second.le first = true) : first = second := by
  cases first <;> cases second <;> simp_all [le, rank]
  exact String.le_antisymm below above

end Component

variable {first second third : List Component}

theorem leSteps_total (first second : List Component) :
    leSteps first second = true ∨ leSteps second first = true := by
  induction first generalizing second with
  | nil => exact Or.inl (by rw [leSteps])
  | cons step rest inductionHypothesis =>
      cases second with
      | nil => exact Or.inr (by rw [leSteps])
      | cons other others =>
          rw [leSteps, leSteps]
          by_cases same : step = other
          · rw [if_pos same, if_pos same.symm]
            exact inductionHypothesis others
          · rw [if_neg same, if_neg (Ne.symm same)]
            exact step.le_total other

theorem leSteps_trans (below : leSteps first second = true) (above : leSteps second third = true) :
    leSteps first third = true := by
  induction first generalizing second third with
  | nil => rw [leSteps]
  | cons step rest inductionHypothesis =>
      cases second with
      | nil => cases below
      | cons middle middles =>
          cases third with
          | nil => cases above
          | cons last others =>
              rw [leSteps] at below above ⊢
              by_cases same : step = middle
              · subst same
                rw [if_pos rfl] at below
                split at above
                · next equal => exact (if_pos equal).trans (inductionHypothesis below above)
                · next different => exact (if_neg different).trans above
              · rw [if_neg same] at below
                by_cases equal : middle = last
                · subst equal
                  exact (if_neg same).trans below
                · rw [if_neg equal] at above
                  -- the steps go up twice, so the last is not the first again
                  have different : step ≠ last := by
                    rintro rfl
                    exact same (Component.le_antisymm below above)
                  exact (if_neg different).trans (Component.le_trans below above)

/-- Sorted paths stand in order. -/
theorem pairwise_mergeSort (paths : List Path) :
    (paths.mergeSort le).Pairwise fun first second => first.le second = true := by
  have transitive : ∀ first second third : Path, first.le second = true →
      second.le third = true → first.le third = true := fun _ _ _ => leSteps_trans
  have total : ∀ first second : Path, (first.le second || second.le first) = true :=
    fun first second => Bool.or_eq_true_iff.mpr (leSteps_total first.components second.components)
  exact List.pairwise_mergeSort transitive total paths

end ChunkPrune.Path
