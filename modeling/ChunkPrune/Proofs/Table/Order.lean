import Mathlib.Order.BoundedOrder.Basic
import Mathlib.Order.Lattice
import ChunkPrune.Table

/-!
# Tables as a lattice

A table is below another one when all its keys have greater or equal values there, so that a
missing key counts as less than every value. Both tables together, with the join of the two
values of a key, are the least table above both.
-/

namespace ChunkPrune

universe u v

namespace Table

variable {κ : Type u} {α : Type v} [LT κ] [DecidableEq κ]

instance [LE α] : LE (Table κ α) where
  le lower upper := ∀ key value, lower.get? key = some value →
    ∃ other, upper.get? key = some other ∧ value ≤ other

instance [KeyOrder κ] [PartialOrder α] : PartialOrder (Table κ α) where
  le_refl _ _ value found := ⟨value, found, le_refl value⟩
  le_trans first second third below above := by
    intro key value found
    obtain ⟨other, there, le⟩ := below key value found
    obtain ⟨last, further, leLast⟩ := above key other there
    exact ⟨last, further, le_trans le leLast⟩
  le_antisymm left right below above := by
    apply ext_get?
    intro key
    cases found : left.get? key with
    | none =>
        cases there : right.get? key with
        | none => rfl
        | some other =>
            obtain ⟨value, absurdity, -⟩ := above key other there
            rw [found] at absurdity
            cases absurdity
    | some value =>
        obtain ⟨other, there, le⟩ := below key value found
        obtain ⟨back, same, ge⟩ := above key other there
        rw [found] at same
        cases same
        rw [there, le_antisymm le ge]

instance [LE α] : OrderBot (Table κ α) where
  bot := empty
  bot_le _ _ _ found := nomatch found

instance [DecidableLT κ] [KeyOrder κ] [SemilatticeSup α] : SemilatticeSup (Table κ α) where
  sup := unionWith (· ⊔ ·)
  le_sup_left left right := by
    intro key value found
    rw [get?_unionWith, found]
    cases right.get? key with
    | none => exact ⟨value, rfl, le_refl value⟩
    | some other => exact ⟨value ⊔ other, rfl, le_sup_left⟩
  le_sup_right left right := by
    intro key value found
    rw [get?_unionWith, found]
    cases left.get? key with
    | none => exact ⟨value, rfl, le_refl value⟩
    | some other => exact ⟨other ⊔ value, rfl, le_sup_right⟩
  sup_le left right upper below beside := by
    intro key value found
    rw [get?_unionWith] at found
    cases first : left.get? key with
    | none =>
        cases second : right.get? key with
        | none => rw [first, second] at found; cases found
        | some other =>
            rw [first, second] at found
            cases found
            exact beside key value second
    | some one =>
        obtain ⟨high, there, le⟩ := below key one first
        cases second : right.get? key with
        | none =>
            rw [first, second] at found
            cases found
            exact ⟨high, there, le⟩
        | some other =>
            rw [first, second] at found
            cases found
            obtain ⟨same, again, leOther⟩ := beside key other second
            rw [there] at again
            cases again
            exact ⟨high, there, sup_le le leOther⟩

end Table

end ChunkPrune
