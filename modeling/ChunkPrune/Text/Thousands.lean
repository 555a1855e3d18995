/-!
# Digits in groups of three

Whole numbers as they stand in reports: `1234567` is written `1,234,567`.
-/

namespace ChunkPrune.Text

/-- A comma stands wherever a positive multiple of three digits follows. -/
def groupDigits : List Char → List Char
  | [] => []
  | d :: rest =>
    if rest ≠ [] ∧ rest.length % 3 = 0 then d :: ',' :: groupDigits rest
    else d :: groupDigits rest

/-- The decimal digits of a number, in groups of three. -/
def thousands (n : Nat) : String := String.ofList (groupDigits (Nat.toDigits 10 n))

/-- Without the commas, the digits are back. -/
theorem filter_groupDigits {digits : List Char} (h : ',' ∉ digits) :
    (groupDigits digits).filter (· ≠ ',') = digits := by
  induction digits with
  | nil => rfl
  | cons d rest ih =>
    rw [List.mem_cons, not_or] at h
    have hd : d ≠ ',' := fun heq => h.1 heq.symm
    have hrest := ih h.2
    rw [groupDigits]
    split <;> simp_all

end ChunkPrune.Text
