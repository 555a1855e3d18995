import ChunkPrune.Json.Token

/-!
# JSON texts as trees

A document is the tree of a text as it is written: members stand in their order,
also those of one key, and numbers and strings are not yet read. It is built from
the tokens one at a time, over a stack of the arrays and objects that are open.
-/

namespace ChunkPrune.Json

inductive Document where
  | null
  | bool (value : Bool)
  | number (text : NumberText)
  | string (units : List TextUnit)
  | array (items : List Document)
  | object (members : List (List TextUnit × Document))
  deriving Repr

namespace Document

/-- An open array or object with what stands in it so far, the last one first. An
object waits for the value of a key. -/
inductive Frame where
  | array (before : List Document)
  | object (before : List (List TextUnit × Document)) (key : List TextUnit)
  deriving Repr

/-- What may come next, under the arrays and objects that are open. -/
inductive State where
  | value (stack : List Frame)
  | itemOrEnd (stack : List Frame)
  | keyOrEnd (stack : List Frame)
  | key (stack : List Frame) (before : List (List TextUnit × Document))
  | colon (stack : List Frame) (before : List (List TextUnit × Document))
      (key : List TextUnit)
  | complete (stack : List Frame) (document : Document)
  deriving Repr

def State.begin? (stack : List Frame) : Token → Option State
  | .null => some (.complete stack .null)
  | .bool b => some (.complete stack (.bool b))
  | .number text => some (.complete stack (.number text))
  | .string units => some (.complete stack (.string units))
  | .openArray => some (.itemOrEnd stack)
  | .openObject => some (.keyOrEnd stack)
  | _ => none

/-- The state after one more token, if the token may stand there. -/
def State.step? : State → Token → Option State
  | .value stack, token => begin? stack token
  | .itemOrEnd stack, .closeArray => some (.complete stack (.array []))
  | .itemOrEnd stack, token => begin? (.array [] :: stack) token
  | .keyOrEnd stack, .closeObject => some (.complete stack (.object []))
  | .keyOrEnd stack, .string units => some (.colon stack [] units)
  | .key stack before, .string units => some (.colon stack before units)
  | .colon stack before units, .colon => some (.value (.object before units :: stack))
  | .complete (.array before :: stack) document, .comma =>
    some (.value (.array (document :: before) :: stack))
  | .complete (.array before :: stack) document, .closeArray =>
    some (.complete stack (.array (document :: before).reverse))
  | .complete (.object before units :: stack) document, .comma =>
    some (.key stack ((units, document) :: before))
  | .complete (.object before units :: stack) document, .closeObject =>
    some (.complete stack (.object ((units, document) :: before).reverse))
  | _, _ => none

def State.run? (state : State) : List Token → Option State
  | [] => some state
  | token :: rest =>
    match state.step? token with
    | some next => next.run? rest
    | none => none

/-- The document of a finished text. -/
def State.finish? : State → Option Document
  | .complete [] document => some document
  | _ => none

/-- The document with the given tokens. -/
def ofTokens? (tokens : List Token) : Option Document :=
  match (State.value []).run? tokens with
  | some state => state.finish?
  | none => none

def read? (text : String) : Option Document :=
  match Token.scan text.toList with
  | some tokens => ofTokens? tokens
  | none => none

/-- The character of two code units that form a pair. -/
def pairedChar? (high low : Nat) : Option Char :=
  if 0xD800 ≤ high ∧ high ≤ 0xDBFF ∧ 0xDC00 ≤ low ∧ low ≤ 0xDFFF then
    some (Char.ofNat (0x10000 + (high - 0xD800) * 0x400 + (low - 0xDC00)))
  else none

/-- The characters of a string; a half of a pair has none. -/
def chars? : List TextUnit → Option (List Char)
  | [] => some []
  | .char c :: rest => (chars? rest).map (c :: ·)
  | .code high :: .code low :: rest =>
    if 0xD800 ≤ high ∧ high ≤ 0xDFFF then
      match pairedChar? high low with
      | some c => (chars? rest).map (c :: ·)
      | none => none
    else (chars? (.code low :: rest)).map (Char.ofNat high :: ·)
  | .code unit :: rest =>
    if 0xD800 ≤ unit ∧ unit ≤ 0xDFFF then none
    else (chars? rest).map (Char.ofNat unit :: ·)

/-- The text of a string, if its surrogates stand in pairs. -/
def text? (units : List TextUnit) : Option String := (chars? units).map String.ofList

mutual

/-- The value of a document: numbers are in range, surrogates stand in pairs, and no
more arrays and objects are open at one place than the limit allows, if there is
one. Of several members with one key the last counts. -/
def value? (limit : Option Nat) : Document → Option Json
  | null => some .null
  | bool value => some (.bool value)
  | number text => text.value?.map .number
  | string units => (text? units).map .string
  | array items =>
    if limit = some 0 then none
    else (values? (limit.map (· - 1)) items).map .array
  | object members =>
    if limit = some 0 then none
    else
      (fields? (limit.map (· - 1)) members).map fun fields =>
        .object (Table.ofList fields).entries

def values? (limit : Option Nat) : List Document → Option (List Json)
  | [] => some []
  | item :: rest =>
    match value? limit item, values? limit rest with
    | some value, some values => some (value :: values)
    | _, _ => none

def fields? (limit : Option Nat) :
    List (List TextUnit × Document) → Option (List (String × Json))
  | [] => some []
  | (key, document) :: rest =>
    match text? key, value? limit document, fields? limit rest with
    | some key, some value, some fields => some ((key, value) :: fields)
    | _, _, _ => none

end

end Document

/-- The greatest number of arrays and objects that may be open at one place. -/
def nestingLimit : Nat := 127

/-- The value of a text, under a limit on nesting if one is given. -/
def readWithin? (limit : Option Nat) (text : String) : Option Json :=
  match Document.read? text with
  | some document => document.value? limit
  | none => none

/-- The value of a text within the usual limit on nesting. -/
def read? (text : String) : Option Json := readWithin? (some nestingLimit) text

end ChunkPrune.Json
