import ChunkPrune.Proofs.Json.Number
import ChunkPrune.Proofs.Report.Shown

/-!
# Numbers in groups of three digits

The commas are put in from the left, by the number of digits that follow. All groups but the
first come out with three digits, and the first one with what is left over. Without the commas,
the decimal digits are back, so different numbers are written differently.
-/

namespace ChunkPrune.Text

/-- The characters are a first group of one to three digits, and further groups of three digits
with a comma before each. -/
structure InGroups (cs : List Char) (first : List Char) (groups : List (List Char)) : Prop where
  shape : cs = first ++ groups.flatMap (',' :: ·)
  first_pos : 1 ≤ first.length
  first_le : first.length ≤ 3
  three : ∀ group ∈ groups, group.length = 3
  digits : ∀ group ∈ first :: groups, ∀ c ∈ group, c.isDigit = true

/-- The characters are the decimal digits of a number, without zeros in front. -/
structure IsDecimal (n : Nat) (cs : List Char) : Prop where
  digits : ∀ c ∈ cs, c.isDigit = true
  value : Nat.ofDigitChars 10 cs 0 = n
  leading : n ≠ 0 → cs.head? ≠ some '0'
  zero : n = 0 → cs = ['0']

/-! ## Groups -/

theorem length_flatten_of_three {groups : List (List Char)}
    (three : ∀ group ∈ groups, group.length = 3) : groups.flatten.length = 3 * groups.length := by
  induction groups with
  | nil => rfl
  | cons group rest inductionHypothesis =>
      obtain ⟨here, others⟩ := List.forall_mem_cons.mp three
      rw [List.flatten_cons, List.length_append, here, inductionHypothesis others,
        List.length_cons]
      omega

/-- One more digit in front fits into the first group, unless this has three digits already. Then
a multiple of three digits follows, so that the digit gets a comma. -/
theorem exists_inGroups {digits : List Char} (filled : digits ≠ [])
    (each : ∀ c ∈ digits, c.isDigit = true) :
    ∃ first groups, InGroups (groupDigits digits) first groups ∧
      digits = first ++ groups.flatten := by
  induction digits with
  | nil => exact absurd rfl filled
  | cons digit rest inductionHypothesis =>
      obtain ⟨isDigit, others⟩ := List.forall_mem_cons.mp each
      by_cases last : rest = []
      · subst last
        refine ⟨[digit], [], ⟨rfl, by simp, by simp, by simp, ?_⟩, rfl⟩
        simpa using isDigit
      · obtain ⟨first, groups, inGroups, whole⟩ := inductionHypothesis last others
        have size : rest.length = first.length + 3 * groups.length := by
          rw [whole, List.length_append, length_flatten_of_three inGroups.three]
        have firstPos := inGroups.first_pos
        have firstLe := inGroups.first_le
        rw [groupDigits]
        by_cases full : rest.length % 3 = 0
        · have three : first.length = 3 := by omega
          rw [if_pos ⟨last, full⟩]
          refine ⟨[digit], first :: groups, ⟨?_, by simp, by simp, ?_, ?_⟩, ?_⟩
          · rw [inGroups.shape]
            rfl
          · exact List.forall_mem_cons.mpr ⟨three, inGroups.three⟩
          · refine List.forall_mem_cons.mpr ⟨?_, inGroups.digits⟩
            simpa using isDigit
          · rw [whole]
            rfl
        · have notThree : first.length ≠ 3 := by omega
          rw [if_neg fun both => full both.2]
          refine ⟨digit :: first, groups, ⟨?_, by simp, ?_, inGroups.three, ?_⟩, ?_⟩
          · rw [inGroups.shape]
            rfl
          · rw [List.length_cons]
            omega
          · obtain ⟨inFirst, inOthers⟩ := List.forall_mem_cons.mp inGroups.digits
            have inFront : ∀ c ∈ digit :: first, c.isDigit = true :=
              List.forall_mem_cons.mpr ⟨isDigit, inFirst⟩
            exact List.forall_mem_cons.mpr ⟨inFront, inOthers⟩
          · rw [whole]
            rfl

/-! ## Commas -/

theorem head?_groupDigits (digits : List Char) : (groupDigits digits).head? = digits.head? := by
  cases digits with
  | nil => rfl
  | cons digit rest =>
      rw [groupDigits]
      split <;> rfl

theorem groupDigits_ne_nil {digits : List Char} (filled : digits ≠ []) :
    groupDigits digits ≠ [] := by
  intro none
  have heads := head?_groupDigits digits
  rw [none] at heads
  exact filled (List.head?_eq_none_iff.mp heads.symm)

theorem getLast?_groupDigits (digits : List Char) :
    (groupDigits digits).getLast? = digits.getLast? := by
  induction digits with
  | nil => rfl
  | cons digit rest inductionHypothesis =>
      rw [groupDigits]
      by_cases last : rest = []
      · subst last
        rfl
      · have more := groupDigits_ne_nil last
        split
        · rw [List.getLast?_cons_cons, List.getLast?_cons_of_ne_nil more, inductionHypothesis,
            List.getLast?_cons_of_ne_nil last]
        · rw [List.getLast?_cons_of_ne_nil more, inductionHypothesis,
            List.getLast?_cons_of_ne_nil last]

/-- After a comma comes a digit. -/
theorem not_doubled_groupDigits {digits : List Char} (noComma : ',' ∉ digits) :
    ¬ [',', ','] <:+: groupDigits digits := by
  induction digits with
  | nil => decide
  | cons digit rest inductionHypothesis =>
      rw [List.mem_cons, not_or] at noComma
      have further := inductionHypothesis noComma.2
      have notHead : ∀ cs : List Char, ¬ [',', ','] <+: digit :: cs := by
        intro cs front
        exact noComma.1 (List.cons_prefix_cons.mp front).1
      rw [groupDigits]
      split
      · intro doubled
        rcases List.infix_cons_iff.mp doubled with front | later
        · exact notHead _ front
        · rcases List.infix_cons_iff.mp later with front | later
          · have comma : [','] <+: groupDigits rest := (List.cons_prefix_cons.mp front).2
            obtain ⟨others, shape⟩ := comma
            have heads := head?_groupDigits rest
            rw [← shape, List.singleton_append, List.head?_cons] at heads
            exact noComma.2 (List.mem_of_head? heads.symm)
          · exact further later
      · intro doubled
        rcases List.infix_cons_iff.mp doubled with front | later
        · exact notHead _ front
        · exact further later

/-! ## Numbers -/

theorem toList_thousands (n : Nat) : (thousands n).toList = groupDigits (Nat.toDigits 10 n) := by
  rw [thousands, String.toList_ofList]

theorem isDigit_of_mem_toDigits {n : Nat} {c : Char} (member : c ∈ Nat.toDigits 10 n) :
    c.isDigit = true :=
  Nat.isDigit_of_mem_toDigits (by decide) (by decide) member

theorem comma_not_mem_toDigits (n : Nat) : ',' ∉ Nat.toDigits 10 n := fun member =>
  absurd (isDigit_of_mem_toDigits member) (by decide)

theorem filter_thousands (n : Nat) :
    (thousands n).toList.filter (· ≠ ',') = Nat.toDigits 10 n := by
  rw [toList_thousands, filter_groupDigits (comma_not_mem_toDigits n)]

theorem isDecimal_toDigits (n : Nat) : IsDecimal n (Nat.toDigits 10 n) := by
  refine ⟨fun _ => isDigit_of_mem_toDigits, ?_, ?_, ?_⟩
  · exact Nat.ofDigitChars_toDigits (by decide) (by decide)
  · intro positive
    exact Json.Token.head?_toDigits_ne (Nat.pos_of_ne_zero positive)
  · intro zero
    rw [zero]
    rfl

/-- A number is told by its text: the number that the text shows is the number itself. -/
theorem eq_of_thousands {n m : Nat} (same : thousands n = thousands m) : n = m := by
  rw [← Figures.number_thousands n, same, Figures.number_thousands]

/-- A number in groups is its decimal digits with commas between them: a group of one to three
digits, and groups of three digits with a comma before each. No comma stands first, last or
beside another one, and different numbers have different texts. -/
theorem thousands_faithful :
    (∀ n : Nat,
      IsDecimal n ((thousands n).toList.filter (· ≠ ',')) ∧
        String.ofList ((thousands n).toList.filter (· ≠ ',')) = toString n ∧
        (∃ first groups, InGroups (thousands n).toList first groups) ∧
        (thousands n).toList.head? ≠ some ',' ∧ (thousands n).toList.getLast? ≠ some ',' ∧
        ¬ [',', ','] <:+: (thousands n).toList) ∧
      Function.Injective thousands := by
  refine ⟨fun n => ?_, fun n m => eq_of_thousands⟩
  have noComma := comma_not_mem_toDigits n
  obtain ⟨first, groups, inGroups, -⟩ :=
    exists_inGroups Nat.toDigits_ne_nil fun _ => isDigit_of_mem_toDigits (n := n)
  rw [filter_thousands, toList_thousands, head?_groupDigits, getLast?_groupDigits]
  refine ⟨isDecimal_toDigits n, Nat.toString_eq_ofList_toDigits.symm,
    ⟨first, groups, inGroups⟩, ?_, ?_, ?_⟩
  · exact fun stands => noComma (List.mem_of_head? stands)
  · exact fun stands => noComma (List.mem_of_getLast? stands)
  · exact not_doubled_groupDigits noComma

example : thousands 1234567 = "1,234,567" := by decide

end ChunkPrune.Text
