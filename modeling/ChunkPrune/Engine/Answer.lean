import ChunkPrune.Json.Document
import ChunkPrune.Json.Printer

/-!
# Answers of an engine

An answer is used when it is an object with new source that is not empty, whatever
else it holds. Otherwise its error decides whether the engine failed or only did not
do anything.
-/

namespace ChunkPrune

/-- What an engine says about the modules of a chunk. -/
structure ModuleReport where
  moduleCount : Option Nat
  kept : Option (List String)
  removed : Option (List String)
  skipReason : Option String
  deriving DecidableEq, Repr, Inhabited

namespace ModuleReport

def silent : ModuleReport := ⟨none, none, none, none⟩

def keptCount (report : ModuleReport) : Nat := (report.kept.getD []).length

def removedCount (report : ModuleReport) : Nat := (report.removed.getD []).length

/-- A module is named by a text, or else by the text of its value. -/
def moduleName : Json → String
  | .string name => name
  | other => other.compact

/-- One name for each item of a list. -/
def modules? (value : Option Json) : Option (List String) :=
  (value.bind Json.array?).map (·.map moduleName)

def ofJson (json : Json) : ModuleReport :=
  { moduleCount := (json.get? "original_count").bind Json.natural?
    kept := modules? (json.get? "kept_modules")
    removed := modules? (json.get? "removed_modules")
    skipReason := ((json.get? "skip_reason").bind Json.string?).filter (· ≠ "") }

end ModuleReport

inductive Answer where
  | success (source : String) (prune : ModuleReport)
  | skipped (reason : String)
  | failed (message : String)
  deriving DecidableEq, Repr

namespace Answer

/-- The reason given for an answer that holds neither source nor an error. -/
def unexpectedShape : String := "unexpected response shape"

/-- The new source of an answer, if there is any. -/
def source? (json : Json) : Option String :=
  ((json.get? "optimized_source").bind Json.string?).filter (· ≠ "")

/-- An answer without new source. A text that is not empty, or a value that is not
nothing, `false` or a text, is an error. -/
def ofError : Option Json → Answer
  | some (.string message) => if message = "" then skipped unexpectedShape else failed message
  | some .null => skipped unexpectedShape
  | some (.bool false) => skipped unexpectedShape
  | some other => failed other.compact
  | none => skipped unexpectedShape

def ofJson (json : Json) : Answer :=
  match source? json with
  | some source =>
    success source (((json.get? "prune_result").map ModuleReport.ofJson).getD .silent)
  | none => ofError (json.get? "error")

def read? (text : String) : Option Answer := (Json.read? text).map ofJson

end Answer

end ChunkPrune
