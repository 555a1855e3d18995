import ChunkPrune.Table

/-!
# Entries and look-ups of tables

The entries of a table are the pairs that its look-ups give. The table of a list has pairs of
the list only, and those of a list in the order of its keys.
-/

namespace ChunkPrune

universe u v w

variable {κ : Type u} {α : Type v} [LT κ]

namespace Entries

omit [LT κ] in
theorem mem_of_get? [DecidableEq κ] {entries : List (κ × α)} {key : κ} {value : α}
    (found : get? key entries = some value) : (key, value) ∈ entries := by
  induction entries with
  | nil => cases found
  | cons head rest inductionHypothesis =>
      obtain ⟨first, other⟩ := head
      rw [get?] at found
      split at found
      next same =>
        cases found
        exact same ▸ List.mem_cons_self
      · exact List.mem_cons_of_mem _ (inductionHypothesis found)

theorem get?_of_mem [DecidableEq κ] [KeyOrder κ] {entries : List (κ × α)}
    (ordered : Ordered entries) {key : κ} {value : α} (member : (key, value) ∈ entries) :
    get? key entries = some value := by
  induction entries with
  | nil => exact absurd member List.not_mem_nil
  | cons head rest inductionHypothesis =>
      obtain ⟨first, other⟩ := head
      rw [get?]
      rcases List.mem_cons.mp member with same | member
      · cases same
        rw [if_pos rfl]
      · have different : first ≠ key := by
          rintro rfl
          exact ordered.not_mem_tail (List.mem_map.mpr ⟨_, member, rfl⟩)
        rw [if_neg different, inductionHypothesis ordered.tail member]

omit [LT κ] in
theorem get?_singleton [DecidableEq κ] (key : κ) (value : α) :
    get? key [(key, value)] = some value := by
  rw [get?, if_pos rfl]

omit [LT κ] in
theorem get?_map [DecidableEq κ] {β : Type w} (f : κ → α → β) (key : κ)
    (entries : List (κ × α)) :
    get? key (entries.map fun entry => (entry.1, f entry.1 entry.2)) =
      (get? key entries).map (f key) := by
  induction entries with
  | nil => rfl
  | cons head rest inductionHypothesis =>
      rw [List.map_cons, get?, get?]
      by_cases same : head.1 = key
      · rw [if_pos same, if_pos same, same]
        rfl
      · rw [if_neg same, if_neg same]
        exact inductionHypothesis

omit [LT κ] in
theorem get?_filter_ne [DecidableEq κ] {other key : κ} (different : key ≠ other)
    (entries : List (κ × α)) :
    get? key (entries.filter fun entry => entry.1 ≠ other) = get? key entries := by
  induction entries with
  | nil => rfl
  | cons head rest inductionHypothesis =>
      by_cases dropped : head.1 = other
      · have notKey : head.1 ≠ key := fun same => different (same.symm.trans dropped)
        rw [List.filter_cons_of_neg (by simpa using dropped), inductionHypothesis, get?,
          if_neg notKey]
      · rw [List.filter_cons_of_pos (by simpa using dropped), get?, get?, inductionHypothesis]

end Entries

namespace Table

theorem get?_map [DecidableEq κ] {β : Type w} (f : κ → α → β) (table : Table κ α) (key : κ) :
    (table.map f).get? key = (table.get? key).map (f key) :=
  Entries.get?_map f key table.entries

theorem get?_singleton [DecidableEq κ] (key other : κ) (value : α) :
    (singleton key value).get? other = if key = other then some value else none := by
  rw [get?, singleton, Entries.get?]
  rfl

theorem get?_ofList_cons [DecidableEq κ] [DecidableLT κ] [KeyOrder κ] (key other : κ)
    (value : α) (rest : List (κ × α)) :
    (ofList ((key, value) :: rest)).get? other =
      match (ofList rest).get? other with
      | some later => some later
      | none => if key = other then some value else none := by
  have folded : ofList ((key, value) :: rest) =
      unionWith (fun _ later => later) (singleton key value) (ofList rest) := rfl
  rw [folded, get?_unionWith, get?_singleton]
  by_cases same : key = other
  · rw [if_pos same]
    cases (ofList rest).get? other <;> rfl
  · rw [if_neg same]
    cases (ofList rest).get? other <;> rfl

theorem mem_of_get?_ofList [DecidableEq κ] [DecidableLT κ] [KeyOrder κ] {pairs : List (κ × α)}
    {key : κ} {value : α} (found : (ofList pairs).get? key = some value) :
    (key, value) ∈ pairs := by
  induction pairs with
  | nil => cases found
  | cons head rest inductionHypothesis =>
      obtain ⟨first, other⟩ := head
      rw [get?_ofList_cons] at found
      cases later : (ofList rest).get? key with
      | some last =>
          simp only [later] at found
          cases found
          exact List.mem_cons_of_mem _ (inductionHypothesis later)
      | none =>
          simp only [later] at found
          split at found
          next same =>
            cases found
            exact same ▸ List.mem_cons_self
          · cases found

theorem get?_ofList_of_ordered [DecidableEq κ] [DecidableLT κ] [KeyOrder κ]
    {pairs : List (κ × α)} (ordered : Entries.Ordered pairs) (key : κ) :
    (ofList pairs).get? key = Entries.get? key pairs := by
  induction pairs with
  | nil => rfl
  | cons head rest inductionHypothesis =>
      obtain ⟨first, value⟩ := head
      rw [get?_ofList_cons, inductionHypothesis ordered.tail, Entries.get?]
      by_cases same : first = key
      · have absent : Entries.get? key rest = none :=
          Entries.get?_eq_none_of_not_mem (same ▸ ordered.not_mem_tail)
        rw [absent, if_pos same]
      · rw [if_neg same, if_neg same]
        cases Entries.get? key rest <;> rfl

/-- The table of pairs in the order of their keys has these pairs. -/
theorem entries_ofList [DecidableEq κ] [DecidableLT κ] [KeyOrder κ] {pairs : List (κ × α)}
    (ordered : Entries.Ordered pairs) : (ofList pairs).entries = pairs :=
  Entries.ext_get? (ofList pairs).ordered ordered (get?_ofList_of_ordered ordered)

theorem ofList_entries [DecidableEq κ] [DecidableLT κ] [KeyOrder κ] (table : Table κ α) :
    ofList table.entries = table :=
  ext_get? (get?_ofList_of_ordered table.ordered)

theorem mem_entries_iff [DecidableEq κ] [KeyOrder κ] {table : Table κ α} {key : κ} {value : α} :
    (key, value) ∈ table.entries ↔ table.get? key = some value :=
  ⟨Entries.get?_of_mem table.ordered, Entries.mem_of_get?⟩

theorem insert_insert [DecidableEq κ] [DecidableLT κ] [KeyOrder κ] (table : Table κ α) (key : κ)
    (value last : α) : (table.insert key value).insert key last = table.insert key last := by
  apply ext_get?
  intro other
  rw [get?_insert, get?_insert, get?_insert]
  split
  · rfl
  · rfl

theorem erase_insert [DecidableEq κ] [DecidableLT κ] [KeyOrder κ] (table : Table κ α) (key : κ)
    (value : α) : (table.insert key value).erase key = table.erase key := by
  apply ext_get?
  intro other
  rw [get?_erase, get?_erase, get?_insert]
  split
  · rfl
  · rfl

theorem erase_of_absent [DecidableEq κ] [KeyOrder κ] {table : Table κ α} {key : κ}
    (absent : table.get? key = none) : table.erase key = table := by
  apply ext_get?
  intro other
  rw [get?_erase]
  split
  next same => rw [← same, absent]
  next => rfl

/-- The keys of two entries of a table are different. -/
theorem nodup_keys [KeyOrder κ] (table : Table κ α) : (table.entries.map (·.1)).Nodup := by
  apply (List.pairwise_map.mpr table.ordered).imp
  rintro first second below rfl
  exact KeyOrder.irrefl first below

end Table

end ChunkPrune
