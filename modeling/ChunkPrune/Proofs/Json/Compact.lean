import ChunkPrune.Proofs.Json.Number

/-!
# Reading a value that is printed without blanks

A value whose members stand in the order of their keys, and whose numbers are read back, is read
back as a whole, under every limit that admits its depth. The value of a document is such a value,
with integers of 64 bits, and is no deeper than the limit under which it was read.
-/

namespace ChunkPrune.Json

/-- The members of all objects stand in the order of their keys, and the numbers have a
property. -/
inductive Sound (numbers : Number → Prop) : Json → Prop
  | null : Sound numbers .null
  | bool (value : Bool) : Sound numbers (.bool value)
  | number {value : Number} (holds : numbers value) : Sound numbers (.number value)
  | string (text : String) : Sound numbers (.string text)
  | array {items : List Json} (each : ∀ item ∈ items, Sound numbers item) :
      Sound numbers (.array items)
  | object {members : List (String × Json)} (ordered : Entries.Ordered members)
      (each : ∀ member ∈ members, Sound numbers member.2) : Sound numbers (.object members)

/-- A number stands somewhere in a value. -/
inductive HasNumber (number : Number) : Json → Prop
  | here : HasNumber number (.number number)
  | item {items : List Json} {item : Json} (listed : item ∈ items)
      (within : HasNumber number item) : HasNumber number (.array items)
  | member {members : List (String × Json)} {member : String × Json} (listed : member ∈ members)
      (within : HasNumber number member.2) : HasNumber number (.object members)

section Members

variable {numbers : Number → Prop} {members : List (String × Json)}

theorem Sound.ordered (sound : Sound numbers (.object members)) : Entries.Ordered members := by
  cases sound with
  | object ordered each => exact ordered

theorem Sound.get? (sound : Sound numbers (.object members)) {key : String} {value : Json}
    (found : Entries.get? key members = some value) : Sound numbers value := by
  cases sound with
  | object ordered each => exact each (key, value) (Entries.mem_of_get? found)

theorem depth_le_of_mem {member : String × Json} (listed : member ∈ members) :
    member.2.depth ≤ depthMembers members := by
  induction members with
  | nil => exact absurd listed List.not_mem_nil
  | cons first rest inductionHypothesis =>
      rw [depthMembers]
      rcases List.mem_cons.mp listed with rfl | listed
      · exact Nat.le_max_left _ _
      · exact Nat.le_trans (inductionHypothesis listed) (Nat.le_max_right _ _)

theorem depth_lt_of_get? {key : String} {value : Json}
    (found : Entries.get? key members = some value) :
    value.depth < (object members).depth :=
  Nat.lt_succ_of_le (depth_le_of_mem (Entries.mem_of_get? found))

end Members

/-- Integers of 64 bits are read back, and so are the doubles that are read back alone. -/
theorem Sound.rereads {json : Json} (sound : Sound Number.InRange json)
    (doubles : ∀ value, HasNumber (.double value) json → Number.ReadsBack value) :
    Sound Number.Rereads json := by
  induction sound with
  | null => exact .null
  | bool value => exact .bool value
  | @number value inRange =>
      cases value with
      | integer value => exact .number (Number.rereads_integer inRange)
      | double value => exact .number (doubles value .here).rereads
  | string text => exact .string text
  | array _ inductionHypothesis =>
      exact .array fun item listed =>
        inductionHypothesis item listed fun value within => doubles value (.item listed within)
  | object ordered _ inductionHypothesis =>
      exact .object ordered fun member listed =>
        inductionHypothesis member listed fun value within => doubles value (.member listed within)

/-! ## Limits on nesting -/

/-- So many arrays and objects may be open at one place. -/
def Admits (limit : Option Nat) (depth : Nat) : Prop :=
  ∀ most, limit = some most → depth ≤ most

section Admits

variable {limit : Option Nat}

theorem admits_none (depth : Nat) : Admits none depth := nofun

theorem admits_some_iff {most depth : Nat} : Admits (some most) depth ↔ depth ≤ most :=
  ⟨fun admits => admits most rfl, fun below _ same => Option.some.inj same ▸ below⟩

theorem admits_succ_iff {depth : Nat} :
    Admits limit (depth + 1) ↔ limit ≠ some 0 ∧ Admits (limit.map (· - 1)) depth := by
  cases limit with
  | none => exact ⟨fun _ => ⟨nofun, admits_none depth⟩, fun _ => admits_none _⟩
  | some most =>
      rw [Option.map_some, admits_some_iff, admits_some_iff]
      cases most with
      | zero => simp
      | succ most => simp

theorem admits_max_iff {first second : Nat} :
    Admits limit (max first second) ↔ Admits limit first ∧ Admits limit second := by
  simp only [Admits, Nat.max_le]
  exact ⟨fun both => ⟨fun most same => (both most same).1, fun most same => (both most same).2⟩,
    fun both most same => ⟨both.1 most same, both.2 most same⟩⟩

theorem admits_depthItems_iff {items : List Json} :
    Admits limit (depthItems items) ↔ ∀ item ∈ items, Admits limit item.depth := by
  induction items with
  | nil => simp [depthItems, Admits]
  | cons item rest inductionHypothesis =>
      rw [depthItems, admits_max_iff, inductionHypothesis, List.forall_mem_cons]

theorem admits_depthMembers_iff {members : List (String × Json)} :
    Admits limit (depthMembers members) ↔ ∀ member ∈ members, Admits limit member.2.depth := by
  induction members with
  | nil => simp [depthMembers, Admits]
  | cons member rest inductionHypothesis =>
      rw [depthMembers, admits_max_iff, inductionHypothesis, List.forall_mem_cons]

end Admits

/-! ## From values to documents -/

open Document Token

/-- A document has the tokens of the printed value, and the value. -/
structure Spells (document : Document) (json : Json) : Prop where
  text : GivesApart json.render document.tokens
  value : ∀ limit, Admits limit json.depth → document.value? limit = some json

section Spells

variable {document : Document} {json : Json}

theorem Spells.item (spells : Spells document json) {more : List Char} {further : List Token}
    {c : Char} (apart : ∀ rest, Apart (c :: rest)) (gives : Gives (c :: more) further) :
    Gives (json.render ++ c :: more) (document.tokens ++ further) :=
  spells.text.append gives fun rest => apart (more ++ rest)

theorem Spells.member (spells : Spells document json) (key : String) {more : List Char}
    {further : List Token} {c : Char} (apart : ∀ rest, Apart (c :: rest))
    (gives : Gives (c :: more) further) :
    Gives (renderString key ++ ':' :: json.render ++ c :: more)
      (.string (printedUnits key) :: .colon :: document.tokens ++ further) := by
  have named := (gives_string key).append gives_colon
  have whole := named.append (spells.item apart gives)
  simpa using whole

theorem apart_comma (rest : List Char) : Apart (',' :: rest) :=
  apart_cons (by decide) (by decide) (by decide) (by decide) rest

theorem apart_closeArray (rest : List Char) : Apart (']' :: rest) :=
  apart_cons (by decide) (by decide) (by decide) (by decide) rest

theorem apart_closeObject (rest : List Char) : Apart ('}' :: rest) :=
  apart_cons (by decide) (by decide) (by decide) (by decide) rest

/-- The text of the value is read as the document. -/
theorem Spells.read?_compact (spells : Spells document json) :
    Document.read? json.compact = some document := by
  rw [Document.read?, compact, String.toList_ofList, spells.text.scan_eq]
  exact ofTokens?_tokens document

/-- The documents of the items of an array. -/
theorem exists_documents : ∀ items : List Json,
    (∀ item ∈ items, ∃ document, Spells document item) →
    ∃ documents, Gives (renderItems items) (itemTokens documents) ∧
      ∀ limit, Admits limit (depthItems items) → values? limit documents = some items
  | [], _ => ⟨[], gives_closeArray, fun _ _ => rfl⟩
  | [item], each => by
    obtain ⟨document, spells⟩ := each item List.mem_cons_self
    refine ⟨[document], spells.item apart_closeArray gives_closeArray, fun limit admits => ?_⟩
    have value := spells.value limit (admits_max_iff.mp admits).1
    simp only [values?, value]
  | item :: next :: rest, each => by
    obtain ⟨⟨document, spells⟩, others⟩ := List.forall_mem_cons.mp each
    obtain ⟨documents, text, values⟩ := exists_documents (next :: rest) others
    -- The tokens of what follows begin with a comma only if there is a further document.
    cases documents with
    | nil => cases values none (admits_none _)
    | cons second further =>
        refine ⟨document :: second :: further, ?_, fun limit admits => ?_⟩
        · exact spells.item apart_comma (gives_comma.append text)
        · obtain ⟨here, there⟩ := admits_max_iff.mp admits
          rw [values?, spells.value limit here, values limit there]

/-- The documents of the members of an object. -/
theorem exists_memberDocuments : ∀ members : List (String × Json),
    (∀ member ∈ members, ∃ document, Spells document member.2) →
    ∃ documents, Gives (renderMembers members) (memberTokens documents) ∧
      ∀ limit, Admits limit (depthMembers members) → fields? limit documents = some members
  | [], _ => ⟨[], gives_closeObject, fun _ _ => rfl⟩
  | [(key, json)], each => by
    obtain ⟨document, spells⟩ := each (key, json) List.mem_cons_self
    refine ⟨[(printedUnits key, document)],
      spells.member key apart_closeObject gives_closeObject, fun limit admits => ?_⟩
    have value := spells.value limit (admits_max_iff.mp admits).1
    simp only [fields?, text?_printedUnits, value]
  | (key, json) :: next :: rest, each => by
    obtain ⟨⟨document, spells⟩, others⟩ := List.forall_mem_cons.mp each
    obtain ⟨documents, text, fields⟩ := exists_memberDocuments (next :: rest) others
    cases documents with
    | nil => cases fields none (admits_none _)
    | cons second further =>
        refine ⟨(printedUnits key, document) :: second :: further, ?_, fun limit admits => ?_⟩
        · exact spells.member key apart_comma (gives_comma.append text)
        · obtain ⟨here, there⟩ := admits_max_iff.mp admits
          rw [fields?, text?_printedUnits, spells.value limit here, fields limit there]

/-- The document of an object with one member. -/
theorem Spells.single (spells : Spells document json) (key : String) :
    Spells (.object [(printedUnits key, document)]) (.object [(key, json)]) where
  text := (gives_openObject.append
    (spells.member key apart_closeObject gives_closeObject)).apart
  value limit admits := by
    obtain ⟨room, inner⟩ := admits_succ_iff.mp admits
    have value := spells.value _ (admits_max_iff.mp inner).1
    rw [value?, if_neg room]
    simp only [fields?, text?_printedUnits, value, Option.map_some,
      Table.entries_ofList (List.pairwise_singleton _ _)]

end Spells

/-- A value whose numbers are read back has a document. -/
theorem Sound.exists_spells {json : Json} (sound : Sound Number.Rereads json) :
    ∃ document, Spells document json := by
  induction sound with
  | null => exact ⟨.null, gives_null.apart, fun _ _ => rfl⟩
  | bool value =>
      refine ⟨.bool value, ?_, fun _ _ => rfl⟩
      cases value with
      | true => exact (gives_bool true).apart
      | false => exact (gives_bool false).apart
  | number rereads =>
      obtain ⟨text, gives, value⟩ := rereads
      refine ⟨.number text, gives, fun _ _ => ?_⟩
      rw [value?, value, Option.map_some]
  | string text =>
      refine ⟨.string (printedUnits text), (gives_string text).apart, fun _ _ => ?_⟩
      rw [value?, text?_printedUnits, Option.map_some]
  | @array items _ inductionHypothesis =>
      obtain ⟨documents, text, values⟩ := exists_documents items inductionHypothesis
      refine ⟨.array documents, (gives_openArray.append text).apart, fun limit admits => ?_⟩
      obtain ⟨room, inner⟩ := admits_succ_iff.mp admits
      rw [value?, if_neg room, values _ inner, Option.map_some]
  | @object members ordered _ inductionHypothesis =>
      obtain ⟨documents, text, fields⟩ := exists_memberDocuments members inductionHypothesis
      refine ⟨.object documents, (gives_openObject.append text).apart, fun limit admits => ?_⟩
      obtain ⟨room, inner⟩ := admits_succ_iff.mp admits
      rw [value?, if_neg room, fields _ inner, Option.map_some, Table.entries_ofList ordered]

/-- The text of a value whose numbers are read back is read as the value. -/
theorem Sound.readWithin?_compact {json : Json} (sound : Sound Number.Rereads json)
    {limit : Option Nat} (admits : Admits limit json.depth) :
    readWithin? limit json.compact = some json := by
  obtain ⟨document, spells⟩ := sound.exists_spells
  rw [readWithin?, spells.read?_compact]
  exact spells.value limit admits

/-! ## From documents to values -/

mutual

/-- The value of a document is no deeper than allowed, and its integers have 64 bits. Of its
members, the table keeps some only, so that each stands among the fields that were read. -/
theorem Document.sound_of_value? : ∀ (document : Document) {limit : Option Nat} {json : Json},
    document.value? limit = some json → Sound Number.InRange json ∧ Admits limit json.depth
  | .null, _, _, valued => by
    cases valued
    exact ⟨.null, fun _ _ => Nat.zero_le _⟩
  | .bool value, _, _, valued => by
    cases valued
    exact ⟨.bool value, fun _ _ => Nat.zero_le _⟩
  | .number text, _, _, valued => by
    rw [value?] at valued
    obtain ⟨number, read, rfl⟩ := Option.map_eq_some_iff.mp valued
    exact ⟨.number (NumberText.inRange_of_value? read), fun _ _ => Nat.zero_le _⟩
  | .string units, _, _, valued => by
    rw [value?] at valued
    obtain ⟨text, -, rfl⟩ := Option.map_eq_some_iff.mp valued
    exact ⟨.string text, fun _ _ => Nat.zero_le _⟩
  | .array documents, limit, _, valued => by
    rw [value?] at valued
    split at valued
    · cases valued
    next room =>
      obtain ⟨items, read, rfl⟩ := Option.map_eq_some_iff.mp valued
      have each := sound_of_values? documents read
      refine ⟨.array fun item listed => (each item listed).1, ?_⟩
      exact admits_succ_iff.mpr ⟨room, admits_depthItems_iff.mpr fun item listed =>
        (each item listed).2⟩
  | .object documents, limit, _, valued => by
    rw [value?] at valued
    split at valued
    · cases valued
    next room =>
      obtain ⟨fields, read, rfl⟩ := Option.map_eq_some_iff.mp valued
      have each := sound_of_fields? documents read
      have listedField : ∀ member ∈ (Table.ofList fields).entries, member ∈ fields :=
        fun member listed => Table.mem_of_get?_ofList (Table.mem_entries_iff.mp listed)
      refine ⟨.object (Table.ordered _) fun member listed =>
        (each member (listedField member listed)).1, ?_⟩
      exact admits_succ_iff.mpr ⟨room, admits_depthMembers_iff.mpr fun member listed =>
        (each member (listedField member listed)).2⟩

theorem Document.sound_of_values? : ∀ (documents : List Document) {limit : Option Nat}
    {items : List Json}, values? limit documents = some items →
    ∀ item ∈ items, Sound Number.InRange item ∧ Admits limit item.depth
  | [], _, _, read => by
    cases read
    exact List.forall_mem_nil _
  | document :: rest, limit, _, read => by
    rw [values?] at read
    split at read
    next value values valued further =>
      cases read
      exact List.forall_mem_cons.mpr
        ⟨sound_of_value? document valued, sound_of_values? rest further⟩
    · cases read

theorem Document.sound_of_fields? : ∀ (documents : List (List TextUnit × Document))
    {limit : Option Nat} {fields : List (String × Json)}, fields? limit documents = some fields →
    ∀ field ∈ fields, Sound Number.InRange field.2 ∧ Admits limit field.2.depth
  | [], _, _, read => by
    cases read
    exact List.forall_mem_nil _
  | (units, document) :: rest, limit, _, read => by
    rw [fields?] at read
    split at read
    next key value fields _ valued further =>
      cases read
      exact List.forall_mem_cons.mpr
        ⟨sound_of_value? document valued, sound_of_fields? rest further⟩
    · cases read

end

end ChunkPrune.Json
