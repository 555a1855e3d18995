/-!
# Finite maps in key order

A `Table` keeps its pairs in strictly increasing order of keys. So a map has one
representation: two tables with the same look-ups are equal (`Table.ext_get?`), and
walking through the pairs walks through the keys in order.
-/

namespace ChunkPrune

universe u v w

/-- The order on keys is transitive and compares any two different keys. -/
class KeyOrder (κ : Type u) [LT κ] : Prop where
  irrefl : ∀ a : κ, ¬ a < a
  trans : ∀ {a b c : κ}, a < b → b < c → a < c
  trichotomy : ∀ {a b : κ}, ¬ a < b → ¬ b < a → a = b

instance : KeyOrder String where
  irrefl := String.lt_irrefl
  trans := String.lt_trans
  trichotomy := fun h h' => Std.Trichotomous.trichotomous _ _ h h'

instance : KeyOrder Nat where
  irrefl := Nat.lt_irrefl
  trans := Nat.lt_trans
  trichotomy := fun h h' => Nat.le_antisymm (Nat.not_lt.mp h') (Nat.not_lt.mp h)

instance {κ : Type u} [LT κ] [KeyOrder κ] : KeyOrder (List κ) where
  irrefl := by
    intro l
    induction l with
    | nil => exact List.not_lt_nil []
    | cons a l ih =>
      intro h
      rcases List.cons_lt_cons_iff.mp h with h | ⟨_, h⟩
      · exact KeyOrder.irrefl a h
      · exact ih h
  trans := by
    intro a b c
    have : Trans (α := κ) (· < ·) (· < ·) (· < ·) := ⟨KeyOrder.trans⟩
    exact List.lt_trans
  trichotomy := by
    intro a
    induction a with
    | nil =>
      intro b h _
      cases b with
      | nil => rfl
      | cons b bs => exact absurd (List.nil_lt_cons b bs) h
    | cons a as ih =>
      intro b h h'
      cases b with
      | nil => exact absurd (List.nil_lt_cons a as) h'
      | cons b bs =>
        have hab : ¬ a < b := fun hlt =>
          h (List.cons_lt_cons_iff.mpr (Or.inl hlt))
        have hba : ¬ b < a := fun hlt =>
          h' (List.cons_lt_cons_iff.mpr (Or.inl hlt))
        have heq : a = b := KeyOrder.trichotomy hab hba
        subst heq
        have htail : as = bs := ih
          (fun hlt => h (List.cons_lt_cons_iff.mpr (Or.inr ⟨rfl, hlt⟩)))
          (fun hlt => h' (List.cons_lt_cons_iff.mpr (Or.inr ⟨rfl, hlt⟩)))
        rw [htail]

/-! ## Pairs in key order -/

namespace Entries

variable {κ : Type u} {α : Type v}

/-- The keys stand in strictly increasing order. -/
def Ordered [LT κ] (entries : List (κ × α)) : Prop :=
  entries.Pairwise fun a b => a.1 < b.1

def get? [DecidableEq κ] (key : κ) : List (κ × α) → Option α
  | [] => none
  | (k, v) :: rest => if k = key then some v else get? key rest

def insert [LT κ] [DecidableLT κ] (key : κ) (value : α) :
    List (κ × α) → List (κ × α)
  | [] => [(key, value)]
  | (k, v) :: rest =>
    if key < k then (key, value) :: (k, v) :: rest
    else if k < key then (k, v) :: insert key value rest
    else (key, value) :: rest

def erase [DecidableEq κ] (key : κ) : List (κ × α) → List (κ × α)
  | [] => []
  | (k, v) :: rest => if k = key then rest else (k, v) :: erase key rest

/-- Both lists in one pass; a key of both gets the combination of its two values. -/
def unionWith [LT κ] [DecidableLT κ] (f : α → α → α) :
    List (κ × α) → List (κ × α) → List (κ × α)
  | [], right => right
  | left, [] => left
  | (k, v) :: left, (k', v') :: right =>
    if k < k' then (k, v) :: unionWith f left ((k', v') :: right)
    else if k' < k then (k', v') :: unionWith f ((k, v) :: left) right
    else (k, f v v') :: unionWith f left right
termination_by left right => left.length + right.length

section Lemmas

variable [LT κ]

theorem Ordered.tail {entry : κ × α} {rest : List (κ × α)}
    (h : Ordered (entry :: rest)) : Ordered rest :=
  (List.pairwise_cons.mp h).2

theorem Ordered.head_lt {entry other : κ × α} {rest : List (κ × α)}
    (h : Ordered (entry :: rest)) (hmem : other ∈ rest) : entry.1 < other.1 :=
  (List.pairwise_cons.mp h).1 other hmem

theorem ordered_cons {entry : κ × α} {rest : List (κ × α)}
    (hhead : ∀ other ∈ rest, entry.1 < other.1) (h : Ordered rest) :
    Ordered (entry :: rest) :=
  List.pairwise_cons.mpr ⟨hhead, h⟩

theorem mem_insert [DecidableLT κ] {key : κ} {value : α} {entry : κ × α}
    {entries : List (κ × α)} (h : entry ∈ insert key value entries) :
    entry = (key, value) ∨ entry ∈ entries := by
  induction entries with
  | nil => exact Or.inl (List.mem_singleton.mp h)
  | cons head rest ih =>
    obtain ⟨k, v⟩ := head
    rw [insert] at h
    split at h
    · exact (List.mem_cons.mp h).imp id id
    · split at h
      · rcases List.mem_cons.mp h with h | h
        · exact Or.inr (h ▸ List.mem_cons_self)
        · exact (ih h).imp id (List.mem_cons_of_mem _)
      · rcases List.mem_cons.mp h with h | h
        · exact Or.inl h
        · exact Or.inr (List.mem_cons_of_mem _ h)

theorem ordered_insert [DecidableLT κ] [KeyOrder κ] (key : κ) (value : α)
    {entries : List (κ × α)} (h : Ordered entries) :
    Ordered (insert key value entries) := by
  induction entries with
  | nil => exact List.pairwise_singleton _ _
  | cons head rest ih =>
    obtain ⟨k, v⟩ := head
    rw [insert]
    split
    next hlt =>
      refine ordered_cons ?_ h
      intro other hother
      rcases List.mem_cons.mp hother with hother | hother
      · exact hother ▸ hlt
      · exact KeyOrder.trans hlt (h.head_lt hother)
    next hnot =>
      split
      next hlt =>
        refine ordered_cons ?_ (ih h.tail)
        intro other hother
        rcases mem_insert hother with hother | hother
        · exact hother ▸ hlt
        · exact h.head_lt hother
      next hnot' =>
        have heq : key = k := KeyOrder.trichotomy hnot hnot'
        refine ordered_cons ?_ h.tail
        intro other hother
        exact heq ▸ h.head_lt hother

omit [LT κ] in
theorem mem_of_mem_erase [DecidableEq κ] {key : κ} {entry : κ × α}
    {entries : List (κ × α)} (h : entry ∈ erase key entries) :
    entry ∈ entries := by
  induction entries with
  | nil => exact h
  | cons head rest ih =>
    obtain ⟨k, v⟩ := head
    rw [erase] at h
    split at h
    · exact List.mem_cons_of_mem _ h
    · rcases List.mem_cons.mp h with h | h
      · exact h ▸ List.mem_cons_self
      · exact List.mem_cons_of_mem _ (ih h)

theorem ordered_erase [DecidableEq κ] (key : κ) {entries : List (κ × α)}
    (h : Ordered entries) : Ordered (erase key entries) := by
  induction entries with
  | nil => exact h
  | cons head rest ih =>
    obtain ⟨k, v⟩ := head
    rw [erase]
    split
    · exact h.tail
    · exact ordered_cons (fun other hother => h.head_lt (mem_of_mem_erase hother))
        (ih h.tail)

theorem Ordered.head_lt_key {entry : κ × α} {rest : List (κ × α)} {key : κ}
    (h : Ordered (entry :: rest)) (hmem : key ∈ rest.map (·.1)) : entry.1 < key := by
  obtain ⟨other, hother, rfl⟩ := List.mem_map.mp hmem
  exact h.head_lt hother

theorem key_mem_unionWith [DecidableLT κ] {f : α → α → α} {key : κ}
    (left right : List (κ × α)) (h : key ∈ (unionWith f left right).map (·.1)) :
    key ∈ left.map (·.1) ∨ key ∈ right.map (·.1) := by
  fun_induction unionWith f left right with
  | case1 right => exact Or.inr h
  | case2 left => exact Or.inl h
  | case3 k v left k' v' right _ ih =>
    rcases List.mem_cons.mp h with h | h
    · exact Or.inl (List.mem_cons.mpr (Or.inl h))
    · exact (ih h).imp (List.mem_cons_of_mem _) id
  | case4 k v left k' v' right _ _ ih =>
    rcases List.mem_cons.mp h with h | h
    · exact Or.inr (List.mem_cons.mpr (Or.inl h))
    · exact (ih h).imp id (List.mem_cons_of_mem _)
  | case5 k v left k' v' right _ _ ih =>
    rcases List.mem_cons.mp h with h | h
    · exact Or.inl (List.mem_cons.mpr (Or.inl h))
    · exact (ih h).imp (List.mem_cons_of_mem _) (List.mem_cons_of_mem _)

theorem ordered_unionWith [DecidableLT κ] [KeyOrder κ] (f : α → α → α)
    (left right : List (κ × α)) (hl : Ordered left) (hr : Ordered right) :
    Ordered (unionWith f left right) := by
  fun_induction unionWith f left right with
  | case1 right => exact hr
  | case2 left => exact hl
  | case3 k v left k' v' right hlt ih =>
    refine ordered_cons ?_ (ih hl.tail hr)
    intro other hother
    rcases key_mem_unionWith _ _ (List.mem_map_of_mem hother) with hkey | hkey
    · exact hl.head_lt_key hkey
    · rcases List.mem_cons.mp hkey with hkey | hkey
      · exact hkey ▸ hlt
      · exact KeyOrder.trans hlt (hr.head_lt_key hkey)
  | case4 k v left k' v' right _ hlt ih =>
    refine ordered_cons ?_ (ih hl hr.tail)
    intro other hother
    rcases key_mem_unionWith _ _ (List.mem_map_of_mem hother) with hkey | hkey
    · rcases List.mem_cons.mp hkey with hkey | hkey
      · exact hkey ▸ hlt
      · exact KeyOrder.trans hlt (hl.head_lt_key hkey)
    · exact hr.head_lt_key hkey
  | case5 k v left k' v' right hnot hnot' ih =>
    have heq : k = k' := KeyOrder.trichotomy hnot hnot'
    refine ordered_cons ?_ (ih hl.tail hr.tail)
    intro other hother
    rcases key_mem_unionWith _ _ (List.mem_map_of_mem hother) with hkey | hkey
    · exact hl.head_lt_key hkey
    · exact heq ▸ hr.head_lt_key hkey

theorem ordered_map {β : Type w} (f : κ → α → β) {entries : List (κ × α)}
    (h : Ordered entries) :
    Ordered (entries.map fun entry => (entry.1, f entry.1 entry.2)) :=
  List.pairwise_map.mpr h

theorem ordered_filter (p : κ × α → Bool) {entries : List (κ × α)}
    (h : Ordered entries) : Ordered (entries.filter p) :=
  List.Pairwise.filter p h

/-! ## Look-ups -/

omit [LT κ] in
theorem get?_eq_none_of_not_mem [DecidableEq κ] {key : κ} {entries : List (κ × α)}
    (h : key ∉ entries.map (·.1)) : get? key entries = none := by
  induction entries with
  | nil => rfl
  | cons head rest ih =>
    obtain ⟨k, v⟩ := head
    rw [List.map_cons, List.mem_cons, not_or] at h
    rw [get?, if_neg (fun heq => h.1 heq.symm), ih h.2]

omit [LT κ] in
theorem key_mem_of_get? [DecidableEq κ] {key : κ} {value : α} {entries : List (κ × α)}
    (h : get? key entries = some value) : key ∈ entries.map (·.1) :=
  Classical.byContradiction fun hmem => by
    rw [get?_eq_none_of_not_mem hmem] at h
    cases h

theorem Ordered.not_mem_tail [KeyOrder κ] {entry : κ × α} {rest : List (κ × α)}
    (h : Ordered (entry :: rest)) : entry.1 ∉ rest.map (·.1) :=
  fun hmem => KeyOrder.irrefl _ (h.head_lt_key hmem)

theorem get?_insert [DecidableEq κ] [DecidableLT κ] [KeyOrder κ] (key other : κ)
    (value : α) (entries : List (κ × α)) :
    get? other (insert key value entries) =
      if key = other then some value else get? other entries := by
  induction entries with
  | nil => rfl
  | cons head rest ih =>
    obtain ⟨k, v⟩ := head
    rw [insert]
    split
    · rfl
    next hnot =>
      split
      next hlt =>
        rw [get?, get?, ih]
        split
        next heq =>
          have hne : key ≠ other := fun h => by
            rw [heq, ← h] at hlt
            exact KeyOrder.irrefl key hlt
          rw [if_neg hne]
        · rfl
      next hnot' =>
        have heq : key = k := KeyOrder.trichotomy hnot hnot'
        subst heq
        rw [get?, get?]
        split <;> rfl

theorem get?_erase [DecidableEq κ] [KeyOrder κ] (key other : κ)
    {entries : List (κ × α)} (h : Ordered entries) :
    get? other (erase key entries) =
      if key = other then none else get? other entries := by
  induction entries with
  | nil => split <;> rfl
  | cons head rest ih =>
    obtain ⟨k, v⟩ := head
    rw [erase]
    split
    next heq =>
      subst heq
      rw [get?]
      split
      next heq' => exact heq' ▸ get?_eq_none_of_not_mem h.not_mem_tail
      · rfl
    next hne =>
      rw [get?, get?, ih h.tail]
      split
      next heq => rw [if_neg (fun h' => hne (heq.trans h'.symm))]
      · rfl

/-- A key of one map keeps its value, a key of both gets the combination. -/
theorem get?_unionWith [DecidableEq κ] [DecidableLT κ] [KeyOrder κ] (f : α → α → α)
    (key : κ) (left right : List (κ × α)) (hl : Ordered left) (hr : Ordered right) :
    get? key (unionWith f left right) =
      match get? key left, get? key right with
      | some a, some b => some (f a b)
      | some a, none => some a
      | none, some b => some b
      | none, none => none := by
  fun_induction unionWith f left right with
  | case1 right => cases h : get? key right <;> simp [get?]
  | case2 left => cases h : get? key left <;> simp [get?]
  | case3 k v left k' v' right hlt ih =>
    by_cases hk : k = key
    · subst hk
      have hright : get? k ((k', v') :: right) = none :=
        get?_eq_none_of_not_mem fun hmem => by
          rcases List.mem_cons.mp hmem with heq | hmem
          · exact KeyOrder.irrefl k (heq ▸ hlt)
          · exact KeyOrder.irrefl k (KeyOrder.trans hlt (hr.head_lt_key hmem))
      rw [hright]
      simp [get?]
    · have hstep := ih hl.tail hr
      simp only [get?, if_neg hk] at hstep ⊢
      exact hstep
  | case4 k v left k' v' right hnot hlt ih =>
    by_cases hk : k' = key
    · subst hk
      have hleft : get? k' ((k, v) :: left) = none :=
        get?_eq_none_of_not_mem fun hmem => by
          rcases List.mem_cons.mp hmem with heq | hmem
          · exact KeyOrder.irrefl k' (heq ▸ hlt)
          · exact KeyOrder.irrefl k' (KeyOrder.trans hlt (hl.head_lt_key hmem))
      rw [hleft]
      simp [get?]
    · have hstep := ih hl hr.tail
      simp only [get?, if_neg hk] at hstep ⊢
      exact hstep
  | case5 k v left k' v' right hnot hnot' ih =>
    have heq : k = k' := KeyOrder.trichotomy hnot hnot'
    subst heq
    by_cases hk : k = key
    · simp [get?, hk]
    · simp only [get?, if_neg hk]
      exact ih hl.tail hr.tail

/-- In key order, the look-ups determine the list. -/
theorem ext_get? [DecidableEq κ] [KeyOrder κ] {left right : List (κ × α)}
    (hl : Ordered left) (hr : Ordered right)
    (h : ∀ key, get? key left = get? key right) : left = right := by
  induction left generalizing right with
  | nil =>
    cases right with
    | nil => rfl
    | cons head rest =>
      have := h head.1
      rw [get?, get?, if_pos rfl] at this
      cases this
  | cons head rest ih =>
    cases right with
    | nil =>
      have := h head.1
      rw [get?, get?, if_pos rfl] at this
      cases this
    | cons head' rest' =>
      have hkey : head.1 = head'.1 := by
        have hget : get? head.1 (head' :: rest') = some head.2 := by
          rw [← h head.1, get?, if_pos rfl]
        have hget' : get? head'.1 (head :: rest) = some head'.2 := by
          rw [h head'.1, get?, if_pos rfl]
        have hmem : head.1 ∈ (head' :: rest').map (·.1) := key_mem_of_get? hget
        have hmem' : head'.1 ∈ (head :: rest).map (·.1) := key_mem_of_get? hget'
        rcases List.mem_cons.mp hmem with heq | hmem
        · exact heq
        · rcases List.mem_cons.mp hmem' with heq | hmem'
          · exact heq.symm
          · exact absurd (KeyOrder.trans (hr.head_lt_key hmem) (hl.head_lt_key hmem'))
              (KeyOrder.irrefl _)
      obtain ⟨k, v⟩ := head
      obtain ⟨k', v'⟩ := head'
      have hkey : k = k' := hkey
      subst hkey
      have hvalue := h k
      rw [get?, get?, if_pos rfl, if_pos rfl] at hvalue
      have hrest : rest = rest' := ih hl.tail hr.tail fun key => by
        by_cases hk : k = key
        · subst hk
          rw [get?_eq_none_of_not_mem hl.not_mem_tail,
            get?_eq_none_of_not_mem hr.not_mem_tail]
        · have := h key
          rwa [get?, get?, if_neg hk, if_neg hk] at this
      rw [Option.some.inj hvalue, hrest]

end Lemmas

end Entries

/-! ## Tables -/

/-- A finite map from keys to values. -/
structure Table (κ : Type u) (α : Type v) [LT κ] where
  entries : List (κ × α)
  ordered : Entries.Ordered entries

namespace Table

variable {κ : Type u} {α : Type v} [LT κ]

instance [DecidableEq κ] [DecidableEq α] : DecidableEq (Table κ α) := fun a b =>
  if h : a.entries = b.entries then
    isTrue (by cases a; cases b; cases h; rfl)
  else
    isFalse (fun heq => h (heq ▸ rfl))

instance [Repr κ] [Repr α] : Repr (Table κ α) where
  reprPrec table n := reprPrec table.entries n

def empty : Table κ α := ⟨[], List.Pairwise.nil⟩

instance : Inhabited (Table κ α) := ⟨empty⟩

def get? [DecidableEq κ] (table : Table κ α) (key : κ) : Option α :=
  Entries.get? key table.entries

def contains [DecidableEq κ] (table : Table κ α) (key : κ) : Bool :=
  (table.get? key).isSome

def insert [DecidableLT κ] [KeyOrder κ] (table : Table κ α) (key : κ) (value : α) :
    Table κ α :=
  ⟨Entries.insert key value table.entries, Entries.ordered_insert key value table.ordered⟩

def erase [DecidableEq κ] (table : Table κ α) (key : κ) : Table κ α :=
  ⟨Entries.erase key table.entries, Entries.ordered_erase key table.ordered⟩

/-- Both maps together; a key of both gets the combination of its two values. -/
def unionWith [DecidableLT κ] [KeyOrder κ] (f : α → α → α) (left right : Table κ α) :
    Table κ α :=
  ⟨Entries.unionWith f left.entries right.entries,
    Entries.ordered_unionWith f _ _ left.ordered right.ordered⟩

def singleton (key : κ) (value : α) : Table κ α :=
  ⟨[(key, value)], List.pairwise_singleton _ _⟩

/-- The map of a list of pairs; of several values for one key the last counts. -/
def ofList [DecidableLT κ] [KeyOrder κ] (pairs : List (κ × α)) : Table κ α :=
  pairs.foldr
    (fun pair table => unionWith (fun _ later => later) (singleton pair.1 pair.2) table)
    empty

def map {β : Type w} (f : κ → α → β) (table : Table κ α) : Table κ β :=
  ⟨table.entries.map fun entry => (entry.1, f entry.1 entry.2),
    Entries.ordered_map f table.ordered⟩

def filter (p : κ → α → Bool) (table : Table κ α) : Table κ α :=
  ⟨table.entries.filter fun entry => p entry.1 entry.2,
    Entries.ordered_filter _ table.ordered⟩

def keys (table : Table κ α) : List κ := table.entries.map (·.1)

def values (table : Table κ α) : List α := table.entries.map (·.2)

def size (table : Table κ α) : Nat := table.entries.length

def isEmpty (table : Table κ α) : Bool := table.entries.isEmpty

@[simp] theorem get?_empty [DecidableEq κ] (key : κ) :
    (empty : Table κ α).get? key = none := rfl

theorem get?_insert [DecidableEq κ] [DecidableLT κ] [KeyOrder κ] (table : Table κ α)
    (key other : κ) (value : α) :
    (table.insert key value).get? other =
      if key = other then some value else table.get? other :=
  Entries.get?_insert key other value table.entries

theorem get?_erase [DecidableEq κ] [KeyOrder κ] (table : Table κ α) (key other : κ) :
    (table.erase key).get? other = if key = other then none else table.get? other :=
  Entries.get?_erase key other table.ordered

theorem get?_unionWith [DecidableEq κ] [DecidableLT κ] [KeyOrder κ] (f : α → α → α)
    (left right : Table κ α) (key : κ) :
    (unionWith f left right).get? key =
      match left.get? key, right.get? key with
      | some a, some b => some (f a b)
      | some a, none => some a
      | none, some b => some b
      | none, none => none :=
  Entries.get?_unionWith f key _ _ left.ordered right.ordered

/-- Two tables with the same look-ups are equal. -/
theorem ext_get? [DecidableEq κ] [KeyOrder κ] {left right : Table κ α}
    (h : ∀ key, left.get? key = right.get? key) : left = right := by
  have := Entries.ext_get? left.ordered right.ordered h
  cases left
  cases right
  cases this
  rfl

end Table

end ChunkPrune
