import ChunkPrune.Json.NumberText
import ChunkPrune.Text.Affix

/-!
# The tokens of a JSON text

Blanks between tokens are skipped. A string is kept as its units, so that a reader
which only passes over it does not ask whether its surrogates stand in pairs.
-/

namespace ChunkPrune.Json

/-- A character of a string, or a code unit written as four hexadecimal digits. -/
inductive TextUnit where
  | char (c : Char)
  | code (unit : Nat)
  deriving DecidableEq, Repr

inductive Token where
  | openArray
  | closeArray
  | openObject
  | closeObject
  | comma
  | colon
  | null
  | bool (value : Bool)
  | number (text : NumberText)
  | string (units : List TextUnit)
  deriving DecidableEq, Repr

namespace Token

def isSpace (c : Char) : Bool := c == ' ' || c == '\t' || c == '\n' || c == '\r'

def isDigit (c : Char) : Bool := '0' ≤ c && c ≤ '9'

def hexValue? (c : Char) : Option Nat :=
  if '0' ≤ c ∧ c ≤ '9' then some (c.toNat - '0'.toNat)
  else if 'a' ≤ c ∧ c ≤ 'f' then some (c.toNat - 'a'.toNat + 10)
  else if 'A' ≤ c ∧ c ≤ 'F' then some (c.toNat - 'A'.toNat + 10)
  else none

/-- The character that a letter after a backslash stands for. -/
def escaped? : Char → Option Char
  | '"' => some '"'
  | '\\' => some '\\'
  | '/' => some '/'
  | 'b' => some '\x08'
  | 'f' => some '\x0c'
  | 'n' => some '\n'
  | 'r' => some '\r'
  | 't' => some '\t'
  | _ => none

/-- The units up to the closing quotation mark, and what follows it. -/
def scanString (units : List TextUnit) : List Char → Option (List TextUnit × List Char)
  | [] => none
  | '"' :: rest => some (units.reverse, rest)
  | '\\' :: 'u' :: a :: b :: c :: d :: rest =>
    match hexValue? a, hexValue? b, hexValue? c, hexValue? d with
    | some a, some b, some c, some d =>
      scanString (.code (((a * 16 + b) * 16 + c) * 16 + d) :: units) rest
    | _, _, _, _ => none
  | '\\' :: letter :: rest =>
    match escaped? letter with
    | some c => scanString (.char c :: units) rest
    | none => none
  | c :: rest =>
    if c.toNat < 0x20 || c == '\\' then none else scanString (.char c :: units) rest

/-- The digits of a whole part: a single zero, or a row without leading zero. -/
def scanWhole : List Char → Option (List Char × List Char)
  | [] => none
  | c :: rest =>
    if c == '0' then some (['0'], rest)
    else if isDigit c then some (c :: rest.takeWhile isDigit, rest.dropWhile isDigit)
    else none

def scanDigits (cs : List Char) : Option (List Char × List Char) :=
  match cs.takeWhile isDigit with
  | [] => none
  | digits => some (digits, cs.dropWhile isDigit)

/-- A fraction, if a point follows. -/
def scanFraction : List Char → Option (Option (List Char) × List Char)
  | '.' :: rest => (scanDigits rest).map fun (digits, rest) => (some digits, rest)
  | cs => some (none, cs)

/-- The sign of an exponent and what follows it. -/
def scanSign : List Char → Bool × List Char
  | '-' :: rest => (true, rest)
  | '+' :: rest => (false, rest)
  | cs => (false, cs)

/-- An exponent, if its letter follows. -/
def scanExponent : List Char → Option (Option (Bool × List Char) × List Char)
  | c :: rest =>
    if c == 'e' || c == 'E' then
      let (down, rest) := scanSign rest
      (scanDigits rest).map fun (digits, rest) => (some (down, digits), rest)
    else some (none, c :: rest)
  | [] => some (none, [])

/-- A number after its sign. -/
def scanNumber (negative : Bool) (cs : List Char) : Option (Token × List Char) := do
  let (whole, rest) ← scanWhole cs
  let (fraction, rest) ← scanFraction rest
  let (exponent, rest) ← scanExponent rest
  some (.number ⟨negative, whole, fraction, exponent⟩, rest)

/-- A literal word of which the first letter is already read. -/
def scanWord (word : String) (token : Token) (cs : List Char) :
    Option (Token × List Char) :=
  (Text.dropStart? word.toList cs).map fun rest => (token, rest)

/-- The token that starts with a given character. -/
def next? (c : Char) (rest : List Char) : Option (Token × List Char) :=
  match c with
  | '[' => some (openArray, rest)
  | ']' => some (closeArray, rest)
  | '{' => some (openObject, rest)
  | '}' => some (closeObject, rest)
  | ',' => some (comma, rest)
  | ':' => some (colon, rest)
  | 'n' => scanWord "ull" null rest
  | 't' => scanWord "rue" (bool true) rest
  | 'f' => scanWord "alse" (bool false) rest
  | '"' => (scanString [] rest).map fun (units, rest) => (string units, rest)
  | '-' => scanNumber true rest
  | _ => scanNumber false (c :: rest)

/-! ## A token uses up its characters -/

theorem scanString_length (cs : List Char) (units : List TextUnit)
    {result : List TextUnit × List Char} (h : scanString units cs = some result) :
    result.2.length < cs.length := by
  fun_induction scanString units cs with
  | case1 => cases h
  | case2 units rest =>
    cases h
    exact Nat.lt_succ_self _
  | case3 units a b c d rest _ _ _ _ _ _ _ _ ih =>
    have := ih h
    simp only [List.length_cons]
    omega
  | case4 => cases h
  | case5 units letter rest _ c _ ih =>
    have := ih h
    simp only [List.length_cons]
    omega
  | case6 => cases h
  | case7 => cases h
  | case8 units c rest _ _ _ _ ih =>
    have := ih h
    simp only [List.length_cons]
    omega

theorem dropWhile_length_le (p : Char → Bool) (cs : List Char) :
    (cs.dropWhile p).length ≤ cs.length :=
  (List.dropWhile_sublist p).length_le

theorem scanWhole_length {cs : List Char} {result : List Char × List Char}
    (h : scanWhole cs = some result) : result.2.length < cs.length := by
  cases cs with
  | nil => cases h
  | cons c rest =>
    rw [scanWhole] at h
    split at h
    · cases h
      exact Nat.lt_succ_self _
    · split at h
      · cases h
        exact Nat.lt_succ_of_le (dropWhile_length_le isDigit rest)
      · cases h

theorem scanDigits_length {cs : List Char} {result : List Char × List Char}
    (h : scanDigits cs = some result) : result.2.length ≤ cs.length := by
  rw [scanDigits] at h
  split at h
  · cases h
  · cases h
    exact dropWhile_length_le isDigit cs

theorem scanFraction_length {cs : List Char} {result : Option (List Char) × List Char}
    (h : scanFraction cs = some result) : result.2.length ≤ cs.length := by
  rw [scanFraction.eq_def] at h
  split at h
  next rest =>
    obtain ⟨pair, hpair, rfl⟩ := Option.map_eq_some_iff.mp h
    exact Nat.le_succ_of_le (scanDigits_length hpair)
  · cases h
    exact Nat.le_refl _

theorem scanSign_length (cs : List Char) : (scanSign cs).2.length ≤ cs.length := by
  rw [scanSign.eq_def]
  split
  · exact Nat.le_succ _
  · exact Nat.le_succ _
  · exact Nat.le_refl _

theorem scanExponent_length {cs : List Char}
    {result : Option (Bool × List Char) × List Char}
    (h : scanExponent cs = some result) : result.2.length ≤ cs.length := by
  cases cs with
  | nil =>
    cases h
    exact Nat.le_refl _
  | cons c rest =>
    rw [scanExponent] at h
    split at h
    · obtain ⟨pair, hpair, rfl⟩ := Option.map_eq_some_iff.mp h
      exact Nat.le_succ_of_le
        (Nat.le_trans (scanDigits_length hpair) (scanSign_length rest))
    · cases h
      exact Nat.le_refl _

theorem scanNumber_length {negative : Bool} {cs : List Char}
    {result : Token × List Char} (h : scanNumber negative cs = some result) :
    result.2.length < cs.length := by
  rw [scanNumber] at h
  obtain ⟨whole, hwhole, h⟩ := Option.bind_eq_some_iff.mp h
  obtain ⟨fraction, hfraction, h⟩ := Option.bind_eq_some_iff.mp h
  obtain ⟨exponent, hexponent, h⟩ := Option.bind_eq_some_iff.mp h
  cases h
  have h1 := scanWhole_length hwhole
  have h2 := scanFraction_length hfraction
  have h3 := scanExponent_length hexponent
  show exponent.2.length < cs.length
  omega

theorem scanWord_length {word : String} {token : Token} {cs : List Char}
    {result : Token × List Char} (h : scanWord word token cs = some result) :
    result.2.length ≤ cs.length := by
  obtain ⟨rest, hrest, rfl⟩ := Option.map_eq_some_iff.mp h
  rw [Text.dropStart?_eq_some_iff.mp hrest, List.length_append]
  exact Nat.le_add_left _ _

theorem next?_length {c : Char} {rest : List Char} {result : Token × List Char}
    (h : next? c rest = some result) : result.2.length ≤ rest.length := by
  rw [next?.eq_def] at h
  split at h
  all_goals first
    | exact scanWord_length h
    | (cases h; exact Nat.le_refl _)
    | exact Nat.le_of_lt (scanNumber_length h)
    | exact Nat.le_of_lt_succ (scanNumber_length h)
    | (obtain ⟨pair, hpair, rfl⟩ := Option.map_eq_some_iff.mp h
       exact Nat.le_of_lt (scanString_length _ _ hpair))

/-- All tokens of a text, after those already found. -/
def scanFrom (found : List Token) (cs : List Char) : Option (List Token) :=
  match cs with
  | [] => some found.reverse
  | c :: rest =>
    if isSpace c then scanFrom found rest
    else
      match _h : next? c rest with
      | none => none
      | some (token, rest') => scanFrom (token :: found) rest'
termination_by cs.length
decreasing_by
  · exact Nat.lt_succ_self _
  · exact Nat.lt_succ_of_le (next?_length _h)

def scan (cs : List Char) : Option (List Token) := scanFrom [] cs

end Token

end ChunkPrune.Json
