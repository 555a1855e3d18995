import ChunkPrune.Json.Document
import ChunkPrune.Json.Printer

/-!
# The tokens of printed values

A value without numbers that is printed over several lines has the tokens of a document in its
text, whatever characters stand in its strings and keys. Between two tokens there are only
blanks.
-/

namespace ChunkPrune.Json

/-! ## Tokens of documents -/

namespace Document

mutual

/-- The tokens that a document is read from. -/
def tokens : Document → List Token
  | null => [.null]
  | bool value => [.bool value]
  | number text => [.number text]
  | string units => [.string units]
  | array items => .openArray :: itemTokens items
  | object members => .openObject :: memberTokens members

/-- The tokens of the items of an array, and of its end. -/
def itemTokens : List Document → List Token
  | [] => [.closeArray]
  | [item] => item.tokens ++ [.closeArray]
  | item :: rest => item.tokens ++ .comma :: itemTokens rest

/-- The tokens of the members of an object, and of its end. -/
def memberTokens : List (List TextUnit × Document) → List Token
  | [] => [.closeObject]
  | [(key, value)] => .string key :: .colon :: value.tokens ++ [.closeObject]
  | (key, value) :: rest => .string key :: .colon :: value.tokens ++ .comma :: memberTokens rest

end

end Document

/-! ## Documents of values -/

/-- What a reader keeps of a printed character. A control character without a letter of its own
is printed as its code. -/
def TextUnit.ofPrinted (c : Char) : TextUnit :=
  if c.toNat < 0x20 ∧ c ∉ ['\x08', '\t', '\n', '\x0c', '\r'] then .code c.toNat else .char c

def printedUnits (text : String) : List TextUnit := text.toList.map .ofPrinted

mutual

/-- No number stands anywhere in the value. -/
def Numberless : Json → Prop
  | number _ => False
  | array items => NumberlessItems items
  | object members => NumberlessMembers members
  | _ => True

def NumberlessItems : List Json → Prop
  | [] => True
  | item :: rest => Numberless item ∧ NumberlessItems rest

def NumberlessMembers : List (String × Json) → Prop
  | [] => True
  | (_, value) :: rest => Numberless value ∧ NumberlessMembers rest

end

theorem numberlessItems_iff {items : List Json} :
    NumberlessItems items ↔ ∀ item ∈ items, Numberless item := by
  induction items with
  | nil => simp [NumberlessItems]
  | cons item rest inductionHypothesis =>
      rw [NumberlessItems, inductionHypothesis, List.forall_mem_cons]

mutual

/-- The document of a printed value in which no number stands. -/
def document : Json → Document
  | null => .null
  | bool value => .bool value
  | number _ => .null
  | string text => .string (printedUnits text)
  | array items => .array (documents items)
  | object members => .object (memberDocuments members)

def documents : List Json → List Document
  | [] => []
  | item :: rest => document item :: documents rest

def memberDocuments : List (String × Json) → List (List TextUnit × Document)
  | [] => []
  | (key, value) :: rest => (printedUnits key, document value) :: memberDocuments rest

end

/-! ## Scanning printed text -/

namespace Token

/-- A text gives its tokens and leaves what follows it to the reader. -/
def Gives (text : List Char) (tokens : List Token) : Prop :=
  ∀ found rest, scanFrom found (text ++ rest) = scanFrom (tokens.reverse ++ found) rest

variable {text more : List Char} {tokens further : List Token}

theorem Gives.nil : Gives [] [] := fun _ _ => rfl

theorem Gives.append (first : Gives text tokens) (second : Gives more further) :
    Gives (text ++ more) (tokens ++ further) := by
  intro found rest
  rw [List.append_assoc, first, second, List.reverse_append, List.append_assoc]

theorem Gives.after (gives : Gives text tokens) (blank : Gives more []) :
    Gives (text ++ more) tokens := by
  have whole := gives.append blank
  rwa [List.append_nil] at whole

theorem gives_space {c : Char} (space : isSpace c = true) : Gives [c] [] := by
  intro found rest
  rw [List.singleton_append, scanFrom, if_pos space]
  rfl

theorem scanFrom_next {c : Char} {token : Token} {cs left : List Char} (found : List Token)
    (noSpace : ¬ isSpace c = true) (next : next? c cs = some (token, left)) :
    scanFrom found (c :: cs) = scanFrom (token :: found) left := by
  rw [scanFrom, if_neg noSpace]
  split
  next absent =>
    rw [next] at absent
    cases absent
  next same =>
    rw [next] at same
    cases same
    rfl

theorem gives_next {c : Char} {token : Token} (noSpace : isSpace c = false)
    (next : ∀ rest, next? c (more ++ rest) = some (token, rest)) :
    Gives (c :: more) [token] := by
  intro found rest
  rw [List.cons_append, scanFrom_next found (Bool.eq_false_iff.mp noSpace) (next rest)]
  rfl

theorem gives_newline (depth : Nat) : Gives (newline depth) [] := by
  have blanks : ∀ count, Gives (List.replicate count ' ') [] := by
    intro count
    induction count with
    | zero => exact .nil
    | succ count inductionHypothesis =>
        exact (gives_space (c := ' ') (by decide)).append inductionHypothesis
  exact (gives_space (c := '\n') (by decide)).append (blanks _)

theorem gives_openArray : Gives ['['] [openArray] :=
  gives_next (by decide) fun _ => rfl

theorem gives_closeArray : Gives [']'] [closeArray] :=
  gives_next (by decide) fun _ => rfl

theorem gives_openObject : Gives ['{'] [openObject] :=
  gives_next (by decide) fun _ => rfl

theorem gives_closeObject : Gives ['}'] [closeObject] :=
  gives_next (by decide) fun _ => rfl

theorem gives_comma : Gives [','] [comma] :=
  gives_next (by decide) fun _ => rfl

theorem gives_colon : Gives [':'] [colon] :=
  gives_next (by decide) fun _ => rfl

theorem gives_colon_space : Gives [':', ' '] [colon] :=
  gives_colon.append (gives_space (by decide))

theorem gives_null : Gives ['n', 'u', 'l', 'l'] [null] :=
  gives_next (by decide) fun _ => rfl

theorem gives_bool (value : Bool) : Gives ((Json.bool value).renderLines 0) [bool value] := by
  cases value with
  | true => exact gives_next (by decide) fun _ => rfl
  | false => exact gives_next (by decide) fun _ => rfl

/-! ### Strings -/

theorem hexValue?_hexDigit {n : Nat} (small : n < 16) : hexValue? (hexDigit n) = some n := by
  revert n
  decide

/-- The characters that are printed as a backslash and a letter. -/
def lettered : List Char := ['"', '\\', '\x08', '\t', '\n', '\x0c', '\r']

theorem renderChar_of_not_lettered {c : Char} (plain : c ∉ lettered) :
    renderChar c =
      if c.toNat < 0x20 then
        ['\\', 'u', '0', '0', hexDigit (c.toNat / 16), hexDigit (c.toNat % 16)]
      else [c] := by
  simp only [lettered, List.mem_cons, List.not_mem_nil, or_false, not_or] at plain
  simp only [renderChar, plain, if_false]

theorem ofPrinted_of_not_lettered {c : Char} (plain : c ∉ lettered) :
    TextUnit.ofPrinted c = if c.toNat < 0x20 then .code c.toNat else .char c := by
  simp only [lettered, List.mem_cons, List.not_mem_nil, or_false, not_or] at plain
  simp [TextUnit.ofPrinted, plain]

/-- A printed character is read as one unit. -/
theorem scanString_renderChar (c : Char) (units : List TextUnit) (rest : List Char) :
    scanString units (renderChar c ++ rest) = scanString (.ofPrinted c :: units) rest := by
  by_cases letter : c ∈ lettered
  · simp only [lettered, List.mem_cons, List.not_mem_nil, or_false] at letter
    rcases letter with rfl | rfl | rfl | rfl | rfl | rfl | rfl
    all_goals rfl
  · rw [renderChar_of_not_lettered letter, ofPrinted_of_not_lettered letter]
    by_cases control : c.toNat < 0x20
    · have high : hexValue? (hexDigit (c.toNat / 16)) = some (c.toNat / 16) :=
        hexValue?_hexDigit (by omega)
      have low : hexValue? (hexDigit (c.toNat % 16)) = some (c.toNat % 16) :=
        hexValue?_hexDigit (by omega)
      have zero : hexValue? '0' = some 0 := by decide
      have whole : ((0 * 16 + 0) * 16 + c.toNat / 16) * 16 + c.toNat % 16 = c.toNat := by omega
      rw [if_pos control, if_pos control]
      simp only [List.cons_append, List.nil_append, scanString, zero, high, low, whole]
    · simp only [lettered, List.mem_cons, not_or] at letter
      have noBackslash : (c == '\\') = false := beq_eq_false_iff_ne.mpr letter.2.1
      rw [if_neg control, if_neg control, List.singleton_append,
        scanString.eq_5 _ _ _ (fun same => letter.1 same)
          (fun _ _ _ _ _ same _ => letter.2.1 same) (fun _ _ same _ => letter.2.1 same),
        decide_eq_false control, noBackslash]
      rfl

/-- A printed string is read up to its end. -/
theorem scanString_printed (chars : List Char) (units : List TextUnit) (rest : List Char) :
    scanString units (chars.flatMap renderChar ++ '"' :: rest) =
      some (units.reverse ++ chars.map .ofPrinted, rest) := by
  induction chars generalizing units with
  | nil => simp [scanString]
  | cons c others inductionHypothesis =>
      rw [List.flatMap_cons, List.append_assoc, scanString_renderChar, inductionHypothesis]
      simp

theorem gives_string (text : String) : Gives (renderString text) [string (printedUnits text)] := by
  refine gives_next (by decide) fun rest => ?_
  have scanned := scanString_printed text.toList [] rest
  rw [List.reverse_nil, List.nil_append] at scanned
  have reached : text.toList.flatMap renderChar ++ ['"'] ++ rest =
      text.toList.flatMap renderChar ++ '"' :: rest := List.append_assoc _ _ _
  show (scanString [] (text.toList.flatMap renderChar ++ ['"'] ++ rest)).map _ = _
  rw [reached, scanned]
  rfl

end Token

/-! ## Printed values -/

open Document Token

mutual

theorem gives_renderLines : ∀ (json : Json) (depth : Nat), Numberless json →
    Gives (json.renderLines depth) json.document.tokens
  | null, _, _ => gives_null
  | bool true, _, _ => gives_bool true
  | bool false, _, _ => gives_bool false
  | string text, _, _ => gives_string text
  | array [], _, _ => gives_openArray.append gives_closeArray
  | array (item :: rest), depth, numberless =>
    gives_openArray.append (gives_renderItemLines (item :: rest) depth numberless)
  | object [], _, _ => gives_openObject.append gives_closeObject
  | object (member :: rest), depth, numberless =>
    gives_openObject.append (gives_renderMemberLines (member :: rest) depth numberless)

theorem gives_renderItemLines : ∀ (items : List Json) (depth : Nat), NumberlessItems items →
    Gives (renderItemLines depth items) (itemTokens (documents items))
  | [], depth, _ => (gives_newline depth).append gives_closeArray
  | [item], depth, numberless => by
    have printed := (gives_newline (depth + 1)).append
      (gives_renderLines item (depth + 1) numberless.1)
    exact (printed.after (gives_newline depth)).append gives_closeArray
  | item :: next :: rest, depth, numberless => by
    have printed := (gives_newline (depth + 1)).append
      (gives_renderLines item (depth + 1) numberless.1)
    exact printed.append
      (gives_comma.append (gives_renderItemLines (next :: rest) depth numberless.2))

theorem gives_renderMemberLines : ∀ (members : List (String × Json)) (depth : Nat),
    NumberlessMembers members →
    Gives (renderMemberLines depth members) (memberTokens (memberDocuments members))
  | [], depth, _ => (gives_newline depth).append gives_closeObject
  | [(key, value)], depth, numberless => by
    have printed := ((gives_newline (depth + 1)).append (gives_string key)).append
      (gives_colon_space.append (gives_renderLines value (depth + 1) numberless.1))
    exact (printed.after (gives_newline depth)).append gives_closeObject
  | (key, value) :: next :: rest, depth, numberless => by
    have printed := ((gives_newline (depth + 1)).append (gives_string key)).append
      (gives_colon_space.append (gives_renderLines value (depth + 1) numberless.1))
    exact printed.append
      (gives_comma.append (gives_renderMemberLines (next :: rest) depth numberless.2))

end

end ChunkPrune.Json
