import ChunkPrune.Proofs.Json.Printed
import ChunkPrune.Proofs.Table.Entry

/-!
# Reading a printed value

A document is built from its tokens one at a time, whatever is open around it. So the text of a
printed value without numbers is read as its document, and the document has the value, when the
members of objects stand in the order of their keys and not too much is open at one place.
-/

namespace ChunkPrune.Json

/-! ## From tokens to documents -/

namespace Document

variable {stack : List Frame} {rest : List Token}

theorem itemTokens_cons_cons (item next : Document) (others : List Document) :
    itemTokens (item :: next :: others) =
      item.tokens ++ .comma :: itemTokens (next :: others) := rfl

theorem run?_itemOrEnd (item : Document) :
    (State.itemOrEnd stack).run? (item.tokens ++ rest) =
      (State.value (.array [] :: stack)).run? (item.tokens ++ rest) := by
  cases item with
  | null => rfl
  | bool value => rfl
  | number text => rfl
  | string units => rfl
  | array items => rfl
  | object members => rfl

theorem run?_items (item : Document) (items : List Document) :
    (State.itemOrEnd stack).run? (itemTokens (item :: items) ++ rest) =
      (State.value (.array [] :: stack)).run? (itemTokens (item :: items) ++ rest) := by
  cases items with
  | nil =>
      rw [itemTokens, List.append_assoc]
      exact run?_itemOrEnd item
  | cons next others =>
      rw [itemTokens_cons_cons, List.append_assoc]
      exact run?_itemOrEnd item

theorem run?_members (member : List TextUnit × Document)
    (members : List (List TextUnit × Document)) :
    (State.keyOrEnd stack).run? (memberTokens (member :: members) ++ rest) =
      (State.key stack []).run? (memberTokens (member :: members) ++ rest) := by
  cases members with
  | nil => rfl
  | cons next others => rfl

mutual

/-- The tokens of a document complete it, whatever is open around it. -/
theorem run?_tokens : ∀ (document : Document) (stack : List Frame) (rest : List Token),
    (State.value stack).run? (document.tokens ++ rest) =
      (State.complete stack document).run? rest
  | null, _, _ => rfl
  | bool _, _, _ => rfl
  | number _, _, _ => rfl
  | string _, _, _ => rfl
  | array [], _, _ => rfl
  | array (item :: items), stack, rest =>
    (run?_items item items).trans (run?_itemTokens (item :: items) [] stack rest nofun)
  | object [], _, _ => rfl
  | object (member :: members), stack, rest =>
    (run?_members member members).trans (run?_memberTokens (member :: members) [] stack rest nofun)

theorem run?_itemTokens : ∀ (items before : List Document) (stack : List Frame)
    (rest : List Token), items ≠ [] →
    (State.value (.array before :: stack)).run? (itemTokens items ++ rest) =
      (State.complete stack (.array (before.reverse ++ items))).run? rest
  | [], _, _, _, nonempty => absurd rfl nonempty
  | [item], before, stack, rest, _ => by
    rw [itemTokens, List.append_assoc, run?_tokens item, ← List.reverse_cons]
    rfl
  | item :: next :: others, before, stack, rest, _ => by
    have further := run?_itemTokens (next :: others) (item :: before) stack rest nofun
    rw [List.reverse_cons, List.append_assoc] at further
    rw [itemTokens_cons_cons, List.append_assoc, run?_tokens item]
    exact further

theorem run?_memberTokens : ∀ (members before : List (List TextUnit × Document))
    (stack : List Frame) (rest : List Token), members ≠ [] →
    (State.key stack before).run? (memberTokens members ++ rest) =
      (State.complete stack (.object (before.reverse ++ members))).run? rest
  | [], _, _, _, nonempty => absurd rfl nonempty
  | [(key, value)], before, stack, rest, _ => by
    have named : (State.key stack before).run? (memberTokens [(key, value)] ++ rest) =
        (State.value (.object before key :: stack)).run?
          (value.tokens ++ ([.closeObject] ++ rest)) := by
      rw [← List.append_assoc]
      rfl
    rw [named, run?_tokens value, ← List.reverse_cons]
    rfl
  | (key, value) :: next :: others, before, stack, rest, _ => by
    have named : (State.key stack before).run?
        (memberTokens ((key, value) :: next :: others) ++ rest) =
        (State.value (.object before key :: stack)).run?
          (value.tokens ++ (.comma :: memberTokens (next :: others) ++ rest)) := by
      rw [← List.append_assoc]
      rfl
    have further := run?_memberTokens (next :: others) ((key, value) :: before) stack rest nofun
    rw [List.reverse_cons, List.append_assoc] at further
    rw [named, run?_tokens value]
    exact further

end

theorem ofTokens?_tokens (document : Document) : ofTokens? document.tokens = some document := by
  have run := run?_tokens document [] []
  rw [List.append_nil] at run
  rw [ofTokens?, run]
  rfl

/-- The text of a printed value is read as its document. -/
theorem read?_pretty {json : Json} (numberless : Numberless json) :
    read? json.pretty = some json.document := by
  have scanned : Token.scan (json.renderLines 0) = some json.document.tokens := by
    have given := gives_renderLines json 0 numberless [] []
    rw [List.append_nil, List.append_nil] at given
    rw [Token.scan, given, Token.scanFrom, List.reverse_reverse]
  rw [read?, pretty, String.toList_ofList, scanned]
  exact ofTokens?_tokens json.document

/-! ## From documents to values -/

theorem chars?_code {code : Nat} (small : code < 0xD800) (units : List TextUnit) :
    chars? (.code code :: units) = (chars? units).map (Char.ofNat code :: ·) := by
  have noSurrogate : ¬ (0xD800 ≤ code ∧ code ≤ 0xDFFF) := by omega
  cases units with
  | nil => simp only [chars?, if_neg noSurrogate]
  | cons unit others =>
      cases unit with
      | char c => simp only [chars?, if_neg noSurrogate]
      | code low => simp only [chars?, if_neg noSurrogate]

theorem chars?_printed (chars : List Char) :
    chars? (chars.map .ofPrinted) = some chars := by
  induction chars with
  | nil => rfl
  | cons c others inductionHypothesis =>
      rw [List.map_cons, TextUnit.ofPrinted]
      split
      next control =>
        rw [chars?_code (by omega), inductionHypothesis, Option.map_some, Char.ofNat_toNat]
      next => rw [chars?, inductionHypothesis, Option.map_some]

theorem text?_printedUnits (text : String) : text? (printedUnits text) = some text := by
  rw [text?, printedUnits, chars?_printed, Option.map_some, String.ofList_toList]

end Document

mutual

/-- No number stands in the value, no more is open at one place than the limit allows, and the
members of objects stand in the order of their keys. -/
def Fits : Option Nat → Json → Prop
  | _, number _ => False
  | limit, array items => limit ≠ some 0 ∧ FitsItems (limit.map (· - 1)) items
  | limit, object members =>
    limit ≠ some 0 ∧ Entries.Ordered members ∧ FitsMembers (limit.map (· - 1)) members
  | _, _ => True

def FitsItems : Option Nat → List Json → Prop
  | _, [] => True
  | limit, item :: rest => Fits limit item ∧ FitsItems limit rest

def FitsMembers : Option Nat → List (String × Json) → Prop
  | _, [] => True
  | limit, (_, value) :: rest => Fits limit value ∧ FitsMembers limit rest

end

mutual

theorem Fits.numberless : ∀ {json : Json} {limit : Option Nat}, Fits limit json → Numberless json
  | null, _, _ => trivial
  | bool _, _, _ => trivial
  | number _, _, fits => fits
  | string _, _, _ => trivial
  | array _, _, fits => FitsItems.numberless fits.2
  | object _, _, fits => FitsMembers.numberless fits.2.2

theorem FitsItems.numberless : ∀ {items : List Json} {limit : Option Nat},
    FitsItems limit items → NumberlessItems items
  | [], _, _ => trivial
  | _ :: _, _, fits => ⟨Fits.numberless fits.1, FitsItems.numberless fits.2⟩

theorem FitsMembers.numberless : ∀ {members : List (String × Json)} {limit : Option Nat},
    FitsMembers limit members → NumberlessMembers members
  | [], _, _ => trivial
  | _ :: _, _, fits => ⟨Fits.numberless fits.1, FitsMembers.numberless fits.2⟩

end

theorem fitsMembers_iff {limit : Option Nat} {members : List (String × Json)} :
    FitsMembers limit members ↔ ∀ member ∈ members, Fits limit member.2 := by
  induction members with
  | nil => simp [FitsMembers]
  | cons member rest inductionHypothesis =>
      rw [FitsMembers, inductionHypothesis, List.forall_mem_cons]

mutual

/-- The document of a value that fits has the value. -/
theorem value?_document : ∀ (json : Json) (limit : Option Nat), Fits limit json →
    Document.value? limit json.document = some json
  | null, _, _ => rfl
  | bool _, _, _ => rfl
  | string text, limit, _ => by
    rw [document, Document.value?, Document.text?_printedUnits]
    rfl
  | array items, limit, fits => by
    rw [document, Document.value?, if_neg fits.1, values?_documents items _ fits.2]
    rfl
  | object members, limit, fits => by
    rw [document, Document.value?, if_neg fits.1, fields?_memberDocuments members _ fits.2.2,
      Option.map_some, Table.entries_ofList fits.2.1]

theorem values?_documents : ∀ (items : List Json) (limit : Option Nat), FitsItems limit items →
    Document.values? limit (documents items) = some items
  | [], _, _ => rfl
  | item :: rest, limit, fits => by
    simp only [documents, Document.values?, value?_document item limit fits.1,
      values?_documents rest limit fits.2]

theorem fields?_memberDocuments : ∀ (members : List (String × Json)) (limit : Option Nat),
    FitsMembers limit members →
    Document.fields? limit (memberDocuments members) = some members
  | [], _, _ => rfl
  | (key, value) :: rest, limit, fits => by
    simp only [memberDocuments, Document.fields?, Document.text?_printedUnits,
      value?_document value limit fits.1, fields?_memberDocuments rest limit fits.2]

end

end ChunkPrune.Json
