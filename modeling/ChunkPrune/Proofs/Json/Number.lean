import Mathlib.Data.List.TakeWhile
import ChunkPrune.Proofs.Json.Consumed

/-!
# Printed numbers are read back

A number is read in the same way wherever it stands, when no character follows that it could go on
with. An integer of 64 bits is printed with its digits and is read back from them. Of a double it
is assumed that its text alone is read back; then it is read back in any text.
-/

namespace ChunkPrune.Json

namespace Token

/-- A number that stands before these characters does not go on with them. -/
def Apart (rest : List Char) : Prop :=
  ∀ c, rest.head? = some c → isDigit c = false ∧ c ≠ '.' ∧ c ≠ 'e' ∧ c ≠ 'E'

theorem apart_nil : Apart [] := nofun

theorem apart_cons {c : Char} (digit : isDigit c = false) (point : c ≠ '.') (lower : c ≠ 'e')
    (upper : c ≠ 'E') (rest : List Char) : Apart (c :: rest) := by
  intro first same
  cases same
  exact ⟨digit, point, lower, upper⟩

/-! ## What stands apart does not change what is read -/

section Append

variable {cs more rest : List Char}

theorem takeWhile_dropWhile_append {p : Char → Bool}
    (stops : ∀ c, rest.head? = some c → p c = false) (cs : List Char) :
    (cs ++ rest).takeWhile p = cs.takeWhile p ∧
      (cs ++ rest).dropWhile p = cs.dropWhile p ++ rest := by
  induction cs with
  | nil =>
      cases rest with
      | nil => exact ⟨rfl, rfl⟩
      | cons c others =>
          have stop := stops c rfl
          exact ⟨by simp [stop], by simp [stop]⟩
  | cons c others inductionHypothesis =>
      obtain ⟨taken, dropped⟩ := inductionHypothesis
      cases kept : p c with
      | true => exact ⟨by simp [kept, taken], by simp [kept, dropped]⟩
      | false => exact ⟨by simp [kept], by simp [kept]⟩

theorem scanWhole_append (apart : Apart rest) {whole : List Char}
    (scanned : scanWhole cs = some (whole, more)) :
    scanWhole (cs ++ rest) = some (whole, more ++ rest) := by
  cases cs with
  | nil => cases scanned
  | cons c others =>
      obtain ⟨taken, dropped⟩ :=
        takeWhile_dropWhile_append (fun c first => (apart c first).1) others
      rw [scanWhole] at scanned
      rw [List.cons_append, scanWhole]
      split at scanned
      next zero =>
        cases scanned
        rw [if_pos zero]
      next nonzero =>
        split at scanned
        next digit =>
          cases scanned
          rw [if_neg nonzero, if_pos digit, taken, dropped]
        · cases scanned

theorem scanDigits_append (apart : Apart rest) {digits : List Char}
    (scanned : scanDigits cs = some (digits, more)) :
    scanDigits (cs ++ rest) = some (digits, more ++ rest) := by
  obtain ⟨taken, dropped⟩ := takeWhile_dropWhile_append (fun c first => (apart c first).1) cs
  rw [scanDigits] at scanned
  rw [scanDigits, taken, dropped]
  split at scanned
  · cases scanned
  · cases scanned
    rfl

theorem scanFraction_append (apart : Apart rest) {fraction : Option (List Char)}
    (scanned : scanFraction cs = some (fraction, more)) :
    scanFraction (cs ++ rest) = some (fraction, more ++ rest) := by
  rw [scanFraction.eq_def] at scanned
  split at scanned
  next others =>
    obtain ⟨⟨digits, left⟩, digitsScanned, same⟩ := Option.map_eq_some_iff.mp scanned
    cases same
    rw [List.cons_append, scanFraction, scanDigits_append apart digitsScanned]
    rfl
  next noPoint =>
    cases scanned
    refine scanFraction.eq_2 _ fun others shape => ?_
    cases cs with
    | nil =>
        rw [List.nil_append] at shape
        exact (apart '.' (by rw [shape]; rfl)).2.1 rfl
    | cons c tail => exact noPoint _ (by rw [(List.cons.inj shape).1])

theorem scanSign_append (nonempty : cs ≠ []) (rest : List Char) :
    scanSign (cs ++ rest) = ((scanSign cs).1, (scanSign cs).2 ++ rest) := by
  cases cs with
  | nil => exact absurd rfl nonempty
  | cons c others =>
      rw [List.cons_append, scanSign.eq_def, scanSign.eq_def (c :: others)]
      split
      next same =>
        cases same
        rfl
      next same =>
        cases same
        rfl
      next noMinus noPlus =>
        split
        next same => exact absurd (by rw [(List.cons.inj same).1]) (noMinus _)
        next same => exact absurd (by rw [(List.cons.inj same).1]) (noPlus _)
        rfl

theorem scanExponent_append (apart : Apart rest) {exponent : Option (Bool × List Char)}
    (scanned : scanExponent cs = some (exponent, more)) :
    scanExponent (cs ++ rest) = some (exponent, more ++ rest) := by
  cases cs with
  | nil =>
      cases scanned
      cases rest with
      | nil => rfl
      | cons c others =>
          obtain ⟨-, -, lower, upper⟩ := apart c rfl
          rw [List.nil_append, scanExponent, if_neg (by simp [lower, upper])]
  | cons c others =>
      rw [scanExponent] at scanned
      rw [List.cons_append, scanExponent]
      split at scanned
      next letter =>
        cases signed : scanSign others with
        | mk down afterSign =>
            simp only [signed] at scanned
            obtain ⟨⟨digits, left⟩, digitsScanned, same⟩ := Option.map_eq_some_iff.mp scanned
            cases same
            have nonempty : others ≠ [] := by
              rintro rfl
              cases signed
              cases digitsScanned
            rw [if_pos letter]
            simp only [scanSign_append nonempty, signed, scanDigits_append apart digitsScanned,
              Option.map_some]
      next noLetter =>
        cases scanned
        rw [if_neg noLetter, List.cons_append]

theorem scanNumber_append (apart : Apart rest) {negative : Bool} {token : Token}
    (scanned : scanNumber negative cs = some (token, more)) :
    scanNumber negative (cs ++ rest) = some (token, more ++ rest) := by
  rw [scanNumber] at scanned
  obtain ⟨⟨whole, afterWhole⟩, wholeScanned, scanned⟩ := Option.bind_eq_some_iff.mp scanned
  obtain ⟨⟨fraction, afterFraction⟩, fractionScanned, scanned⟩ :=
    Option.bind_eq_some_iff.mp scanned
  obtain ⟨⟨exponent, left⟩, exponentScanned, scanned⟩ := Option.bind_eq_some_iff.mp scanned
  cases scanned
  simp only [scanNumber, scanWhole_append apart wholeScanned,
    scanFraction_append apart fractionScanned, scanExponent_append apart exponentScanned,
    Option.bind_eq_bind, Option.bind_some]

theorem next?_append (apart : Apart rest) {c : Char} {text : NumberText}
    (next : next? c cs = some (.number text, more)) :
    next? c (cs ++ rest) = some (.number text, more ++ rest) := by
  rw [next?.eq_def] at next ⊢
  split at next
  -- A number comes from the last two cases only: after a minus sign, or without any sign.
  all_goals first
    | exact scanNumber_append apart next
    | cases next
    | (obtain ⟨left, -, same⟩ := Option.map_eq_some_iff.mp next
       cases same)

end Append

/-! ## Numbers that stand apart -/

/-- Tokens that are already found stay in front of the others. -/
theorem scanFrom_append (found before : List Token) (cs : List Char) :
    scanFrom (found ++ before) cs = (scanFrom found cs).map (before.reverse ++ ·) := by
  fun_induction scanFrom found cs with
  | case1 found => rw [scanFrom, Option.map_some, List.reverse_append]
  | case2 found c rest space inductionHypothesis =>
      rw [scanFrom, if_pos space, inductionHypothesis]
  | case3 found c rest noSpace absent =>
      rw [scanFrom, if_neg noSpace]
      split
      next => rfl
      next present =>
        rw [absent] at present
        cases present
  | case4 found c rest noSpace token left present inductionHypothesis =>
      rw [scanFrom_next _ noSpace present]
      exact inductionHypothesis

variable {text more : List Char} {tokens further : List Token}

/-- A text gives its tokens, when nothing follows it that a number could go on with. -/
def GivesApart (text : List Char) (tokens : List Token) : Prop :=
  ∀ found rest, Apart rest → scanFrom found (text ++ rest) = scanFrom (tokens.reverse ++ found) rest

theorem Gives.apart (gives : Gives text tokens) : GivesApart text tokens :=
  fun found rest _ => gives found rest

theorem GivesApart.append (first : GivesApart text tokens) (second : Gives more further)
    (apart : ∀ rest, Apart (more ++ rest)) : Gives (text ++ more) (tokens ++ further) := by
  intro found rest
  rw [List.append_assoc, first found _ (apart rest), second, List.reverse_append,
    List.append_assoc]

theorem GivesApart.scan_eq (gives : GivesApart text tokens) : scan text = some tokens := by
  have whole := gives [] [] apart_nil
  rw [List.append_nil, List.append_nil] at whole
  rw [scan, whole, scanFrom, List.reverse_reverse]

theorem gives_of_scan_eq_nil {text : List Char} (blank : scan text = some []) : Gives text [] := by
  induction text with
  | nil => exact .nil
  | cons c others inductionHypothesis =>
      rw [scan, scanFrom] at blank
      split at blank
      next space => exact (gives_space space).append (inductionHypothesis blank)
      · split at blank
        · cases blank
        next token left _ =>
          rw [← List.nil_append [token], scanFrom_append] at blank
          obtain ⟨tokens, -, same⟩ := Option.map_eq_some_iff.mp blank
          cases same

/-- A text in which nothing but a number stands gives it wherever it stands apart. -/
theorem gives_of_scan_eq_number {text : List Char} {number : NumberText}
    (scanned : scan text = some [.number number]) : GivesApart text [.number number] := by
  induction text with
  | nil =>
      rw [scan, scanFrom] at scanned
      cases scanned
  | cons c others inductionHypothesis =>
      rw [scan, scanFrom] at scanned
      split at scanned
      next space =>
        intro found rest apart
        rw [List.cons_append, scanFrom, if_pos space]
        exact inductionHypothesis scanned found rest apart
      next noSpace =>
        split at scanned
        · cases scanned
        next token left next =>
          -- The one token is the number, so that only blanks are left after it.
          rw [← List.nil_append [token], scanFrom_append] at scanned
          obtain ⟨tokens, blank, same⟩ := Option.map_eq_some_iff.mp scanned
          cases same
          intro found rest apart
          rw [List.cons_append, scanFrom_next found noSpace (next?_append apart next)]
          exact gives_of_scan_eq_nil blank _ _

/-! ## Digits -/

theorem isSpace_of_isDigit {c : Char} (digit : isDigit c = true) : isSpace c = false := by
  rw [Bool.eq_false_iff]
  intro space
  simp only [isSpace, Bool.or_eq_true, beq_iff_eq] at space
  rcases space with ((rfl | rfl) | rfl) | rfl
  all_goals exact absurd digit (by decide)

theorem next?_of_isDigit {c : Char} (digit : isDigit c = true) (rest : List Char) :
    next? c rest = scanNumber false (c :: rest) := by
  rw [next?.eq_def]
  split
  all_goals first
    | exact absurd digit (by decide)
    | rfl

theorem isDigit_of_mem_toDigits {n : Nat} {c : Char} (member : c ∈ Nat.toDigits 10 n) :
    isDigit c = true :=
  Nat.isDigit_of_mem_toDigits (by decide) (by decide) member

/-- The digits of a number that is not zero have no zero in front. -/
theorem head?_toDigits_ne {n : Nat} (positive : 0 < n) : (Nat.toDigits 10 n).head? ≠ some '0' := by
  induction n using Nat.strongRecOn with
  | ind n inductionHypothesis =>
      by_cases small : n < 10
      · have single : ∀ digit < 10, 0 < digit → [digit.digitChar].head? ≠ some '0' := by decide
        rw [Nat.toDigits_of_lt_base small]
        exact single n small positive
      · have leads := inductionHypothesis (n / 10) (by omega) (by omega)
        rw [Nat.toDigits_of_base_le (by decide) (Nat.le_of_not_lt small)]
        cases shape : Nat.toDigits 10 (n / 10) with
        | nil => exact absurd shape Nat.toDigits_ne_nil
        | cons c rest => rwa [shape] at leads

theorem scanWhole_toDigits (n : Nat) :
    scanWhole (Nat.toDigits 10 n) = some (Nat.toDigits 10 n, []) := by
  rcases Nat.eq_zero_or_pos n with rfl | positive
  · rfl
  · have leads := head?_toDigits_ne positive
    have digits : ∀ c ∈ Nat.toDigits 10 n, isDigit c = true := fun _ => isDigit_of_mem_toDigits
    cases shape : Nat.toDigits 10 n with
    | nil => exact absurd shape Nat.toDigits_ne_nil
    | cons c rest =>
        rw [shape] at leads digits
        obtain ⟨digit, others⟩ := List.forall_mem_cons.mp digits
        have nonzero : c ≠ '0' := fun same => leads (congrArg some same)
        rw [scanWhole, if_neg (by simpa using nonzero), if_pos digit,
          List.takeWhile_eq_self_iff.mpr others, List.dropWhile_eq_nil_iff.mpr others]

theorem scanNumber_toDigits (negative : Bool) (n : Nat) :
    scanNumber negative (Nat.toDigits 10 n) =
      some (.number ⟨negative, Nat.toDigits 10 n, none, none⟩, []) := by
  simp only [scanNumber, scanWhole_toDigits]
  rfl

/-- An integer is printed as its sign and its digits. -/
theorem scan_render_integer (value : Int) :
    scan (Number.integer value).render =
      some [.number ⟨decide (value < 0), Nat.toDigits 10 value.natAbs, none, none⟩] := by
  have scanned : ∀ c rest token, isSpace c = false → next? c rest = some (token, []) →
      scan (c :: rest) = some [token] := by
    intro c rest token noSpace next
    rw [scan, scanFrom_next [] (Bool.eq_false_iff.mp noSpace) next, scanFrom]
    rfl
  rw [Number.render]
  by_cases negative : value < 0
  · rw [if_pos negative, decide_eq_true negative]
    exact scanned _ _ _ (by decide) (scanNumber_toDigits true _)
  · rw [if_neg negative, decide_eq_false negative, List.nil_append]
    cases shape : Nat.toDigits 10 value.natAbs with
    | nil => exact absurd shape Nat.toDigits_ne_nil
    | cons c rest =>
        have digit : isDigit c = true := by
          apply isDigit_of_mem_toDigits (n := value.natAbs)
          rw [shape]
          exact List.mem_cons_self
        refine scanned _ _ _ (isSpace_of_isDigit digit) ?_
        rw [next?_of_isDigit digit, ← shape]
        exact scanNumber_toDigits false _

end Token

namespace Number

/-- What is printed for a number is read as the number, wherever it stands apart. -/
def Rereads (number : Number) : Prop :=
  ∃ text, Token.GivesApart number.render [.number text] ∧ text.value? = some number

/-- An integer has 64 bits, with or without a sign. -/
def InRange : Number → Prop
  | integer value => -(Nat.pow 2 63 : Int) ≤ value ∧ value < NumberText.wordBound
  | double _ => True

/-- The text of a double alone is read as the double. -/
def ReadsBack (value : Binary64) : Prop :=
  Json.read? (Json.number (.double value)).compact = some (.number (.double value))

end Number

theorem NumberText.inRange_of_value? {text : NumberText} {number : Number}
    (valued : text.value? = some number) : number.InRange := by
  rw [value?] at valued
  split at valued
  next integral =>
    simp only [Bool.and_eq_true, decide_eq_true_eq] at integral
    split at valued
    · cases valued
      exact ⟨by omega, by omega⟩
    · split at valued
      · cases valued
        exact ⟨by omega, by omega⟩
      · obtain ⟨size, -, same⟩ := Option.map_eq_some_iff.mp valued
        cases same
        trivial
  · obtain ⟨size, -, same⟩ := Option.map_eq_some_iff.mp valued
    cases same
    trivial

theorem Number.rereads_integer {value : Int} (inRange : (Number.integer value).InRange) :
    (Number.integer value).Rereads := by
  refine ⟨_, Token.gives_of_scan_eq_number (Token.scan_render_integer value), ?_⟩
  have digits : NumberText.digitsValue 0 (Nat.toDigits 10 value.natAbs) = value.natAbs :=
    Nat.ofDigitChars_toDigits (by decide) (by decide)
  obtain ⟨low, high⟩ := inRange
  have small : value.natAbs < NumberText.wordBound := by
    have : Nat.pow 2 63 < NumberText.wordBound := by decide
    omega
  simp only [NumberText.value?, digits, Option.isNone_none, small, decide_true, Bool.and_self,
    if_true]
  by_cases negative : value < 0
  · have nonzero : value.natAbs ≠ 0 ∧ value.natAbs ≤ Nat.pow 2 63 := by omega
    have same : -(value.natAbs : Int) = value := by omega
    simp only [negative, decide_true, Bool.not_true, Bool.false_eq_true, if_false, if_pos nonzero,
      same]
  · have same : (value.natAbs : Int) = value := by omega
    simp only [negative, decide_false, Bool.not_false, if_true, same]

/-- Only the document of a number has a number as its value. -/
theorem Document.exists_number_of_value? {document : Document} {limit : Option Nat}
    {number : Number} (valued : document.value? limit = some (.number number)) :
    ∃ text, document = .number text ∧ text.value? = some number := by
  cases document with
  | number text =>
      rw [value?] at valued
      obtain ⟨other, read, same⟩ := Option.map_eq_some_iff.mp valued
      cases same
      exact ⟨text, rfl, read⟩
  | null | bool value => cases valued
  | string units =>
      rw [value?] at valued
      obtain ⟨text, -, same⟩ := Option.map_eq_some_iff.mp valued
      cases same
  | array items | object members =>
      rw [value?] at valued
      split at valued
      · cases valued
      · obtain ⟨values, -, same⟩ := Option.map_eq_some_iff.mp valued
        cases same

theorem Number.ReadsBack.rereads {value : Binary64} (readsBack : Number.ReadsBack value) :
    (Number.double value).Rereads := by
  rw [ReadsBack, read?, readWithin?] at readsBack
  split at readsBack
  next document read =>
    rw [Document.read?, compact, String.toList_ofList] at read
    split at read
    next tokens scanned =>
      obtain ⟨text, rfl, valued⟩ := Document.exists_number_of_value? readsBack
      rw [Document.ofTokens?_eq_some_iff.mp read] at scanned
      exact ⟨text, Token.gives_of_scan_eq_number scanned, valued⟩
    · cases read
  · cases readsBack

end ChunkPrune.Json
