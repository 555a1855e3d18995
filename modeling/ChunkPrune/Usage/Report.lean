import ChunkPrune.Json.Document
import ChunkPrune.Json.Printer

/-!
# Usage reports

A usage report is written by the build of one application. For each shared library it
says which exports the application uses, and under a reserved key it describes how
the build emitted the library. The description is kept as it is and is never taken
for an export.
-/

namespace ChunkPrune

/-- The key of a library that holds its characteristics instead of an export. -/
def characteristicsKey : String := "chunk_characteristics"

/-- The key of a report that holds its libraries. -/
def librariesKey : String := "treeShake"

/-- How one build emitted one library: the members of the object in its report. -/
structure Characteristics where
  members : List (String × Json)
  deriving DecidableEq, Repr

instance : Inhabited Characteristics := ⟨⟨[]⟩⟩

namespace Characteristics

/-- Characteristics that name an entry module and files, and nothing else. A run makes none: all of
its characteristics are read from reports. -/
def ofEntry (entry : String) (files : List String) : Characteristics :=
  ⟨(Table.ofList
    [("entry_module_id", Json.string entry),
      ("chunk_files", Json.array (files.map Json.string))]).entries⟩

def toJson (c : Characteristics) : Json := .object c.members

/-- The id of the entry module: a text that is not empty, or a number other than zero
as it is written. -/
def entryModule? (c : Characteristics) : Option String :=
  match Entries.get? "entry_module_id" c.members with
  | some (.string id) => if id = "" then none else some id
  | some (.number id) =>
    if (Json.number id).truthy then some (Json.number id).compact else none
  | _ => none

/-- The file names in the order of the build; other items of the list are left out. -/
def files? (c : Characteristics) : Option (List String) :=
  match Entries.get? "chunk_files" c.members with
  | some (.array items) => some (items.filterMap Json.string?)
  | _ => none

end Characteristics

/-- The use of one library by one application. -/
structure LibraryRecord where
  exports : Table String Bool
  characteristics : Option Characteristics
  deriving DecidableEq

namespace LibraryRecord

/-- A value that is no object says nothing about its library. Each key but the
reserved one is an export, used when its value counts as true. -/
def ofJson : Json → LibraryRecord
  | .object members =>
    { exports := Table.ofList <|
        (members.filter (·.1 ≠ characteristicsKey)).map fun (key, value) =>
          (key, value.truthy)
      characteristics :=
        match Entries.get? characteristicsKey members with
        | some (.object fields) => some ⟨fields⟩
        | _ => none }
  | _ => ⟨Table.empty, none⟩

end LibraryRecord

/-- The use of shared libraries by one application. -/
structure UsageReport where
  libraries : Table String LibraryRecord
  deriving DecidableEq

namespace UsageReport

/-- The libraries of a report, which stand one level deep in it. -/
def ofLibraries? (document : Json.Document) : Option UsageReport :=
  match document.value? (some (Json.nestingLimit - 1)) with
  | some (.object members) =>
    some ⟨Table.ofList (members.map fun (key, value) => (key, LibraryRecord.ofJson value))⟩
  | _ => none

/-- Each member with its key as text. -/
def fields? : List (List Json.TextUnit × Json.Document) →
    Option (List (String × Json.Document))
  | [] => some []
  | (key, document) :: rest =>
    match Json.Document.text? key, fields? rest with
    | some key, some fields => some ((key, document) :: fields)
    | _, _ => none

/-- An object with the libraries under their key, which may be missing but not stand
twice; or a list with at most the libraries in it. What else the object holds is
passed over unread. -/
def ofDocument? : Json.Document → Option UsageReport
  | .object members =>
    match fields? members with
    | none => none
    | some fields =>
      match fields.filter (·.1 = librariesKey) with
      | [] => some ⟨Table.empty⟩
      | [(_, document)] => ofLibraries? document
      | _ => none
  | .array [] => some ⟨Table.empty⟩
  | .array [document] => ofLibraries? document
  | _ => none

def read? (text : String) : Option UsageReport :=
  match Json.Document.read? text with
  | some document => ofDocument? document
  | none => none

end UsageReport

end ChunkPrune
