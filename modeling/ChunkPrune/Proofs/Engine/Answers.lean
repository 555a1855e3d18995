import Mathlib.Data.List.Forall2
import ChunkPrune.Engine.Answer

/-!
# What an answer of the engine says

An answer offers new source, or it has an error or nothing to say. What it tells about modules are
two lists, each of them with a name for every item.
-/

namespace ChunkPrune

namespace Answer

/-- The answer is an object with new source that is not empty, whatever its other members are. -/
def Offers (json : Json) (source : String) : Prop :=
  ∃ members, json = .object members ∧
    Entries.get? "optimized_source" members = some (.string source) ∧ source ≠ ""

/-- The reason that is given for an answer without new source is told by its error: a text that is
not empty is the reason itself, another value is printed, and in place of an error that says
nothing, the shape of the answer is the reason. -/
structure Declines (error : Option Json) (reason : String) : Prop where
  text : ∀ message, error = some (.string message) → message ≠ "" → reason = message
  value : ∀ value, error = some value → value ≠ .null → value ≠ .bool false →
    (∀ message, value ≠ .string message) → reason = value.compact
  nothing : error = none ∨ error = some .null ∨ error = some (.bool false) ∨
    error = some (.string "") → reason = "unexpected response shape"

end Answer

namespace ModuleReport

/-- A text is a name itself, another value is named by its JSON text. -/
structure Names (value : Json) (name : String) : Prop where
  text : ∀ text, value = .string text → name = text
  other : (∀ text, value ≠ .string text) → name = value.compact

/-- There is a name for each item of an array, in their order; a field that is not an array has
no names. -/
structure NamesEach (field : Option Json) (names : Option (List String)) : Prop where
  listed : ∀ items, field = some (.array items) →
    ∃ list, names = some list ∧ List.Forall₂ Names items list
  absent : (∀ items, field ≠ some (.array items)) → names = none

/-- The modules of a report are those that an answer lists. -/
structure Tells (answer : Json) (report : ModuleReport) : Prop where
  kept : NamesEach ((answer.get? "prune_result").bind (·.get? "kept_modules")) report.kept
  removed : NamesEach ((answer.get? "prune_result").bind (·.get? "removed_modules")) report.removed

theorem names_moduleName (value : Json) : Names value (moduleName value) := by
  constructor
  · rintro text rfl
    rfl
  · intro other
    cases value with
    | string text => exact absurd rfl (other text)
    | _ => rfl

theorem namesEach_modules? (field : Option Json) : NamesEach field (modules? field) := by
  constructor
  · rintro items rfl
    refine ⟨items.map moduleName, rfl, ?_⟩
    rw [List.forall₂_map_right_iff, List.forall₂_same]
    exact fun value _ => names_moduleName value
  · intro other
    cases field with
    | none => rfl
    | some value =>
        cases value with
        | array items => exact absurd rfl (other items)
        | _ => rfl

/-- Without a report in the answer nothing is listed. -/
theorem tells_report (answer : Json) :
    Tells answer (((answer.get? "prune_result").map ofJson).getD .silent) := by
  cases found : answer.get? "prune_result" with
  | none =>
      constructor <;> rw [found] <;> exact namesEach_modules? none
  | some value =>
      constructor <;> rw [found] <;> exact namesEach_modules? _

end ModuleReport

namespace Answer

variable {json : Json} {source : String}

theorem source?_eq_some_iff : source? json = some source ↔ Offers json source := by
  rw [source?, Option.filter_eq_some_iff]
  cases json with
  | object members =>
      cases found : Entries.get? "optimized_source" members with
      | none => simp [Json.get?, Offers, found]
      | some value => cases value <;> simp [Json.get?, Json.string?, Offers, found]
  | _ => simp [Json.get?, Offers]

/-- Two sources are not offered at once. -/
theorem Offers.unique {other : String} (offers : Offers json source) (again : Offers json other) :
    source = other :=
  Option.some.inj ((source?_eq_some_iff.mpr offers).symm.trans (source?_eq_some_iff.mpr again))

theorem ofJson_of_offers (offers : Offers json source) :
    ofJson json =
      success source (((json.get? "prune_result").map ModuleReport.ofJson).getD .silent) := by
  rw [ofJson, source?_eq_some_iff.mpr offers]

theorem ofJson_of_not_offers (nothing : ∀ source, ¬ Offers json source) :
    ofJson json = ofError (json.get? "error") := by
  have none : source? json = none :=
    Option.eq_none_iff_forall_ne_some.mpr fun source offered =>
      nothing source (source?_eq_some_iff.mp offered)
  rw [ofJson, none]

theorem declines_ofError (error : Option Json) :
    ∃ reason, (ofError error = .failed reason ∨ ofError error = .skipped reason) ∧
      Declines error reason := by
  cases error with
  | none => exact ⟨unexpectedShape, Or.inr rfl, nofun, nofun, fun _ => rfl⟩
  | some value =>
      cases value with
      | null => exact ⟨unexpectedShape, Or.inr rfl, nofun, by simp, fun _ => rfl⟩
      | bool given =>
          cases given with
          | false => exact ⟨unexpectedShape, Or.inr rfl, nofun, by simp, fun _ => rfl⟩
          | true => exact ⟨_, Or.inl rfl, nofun, by simp, by simp⟩
      | string message =>
          by_cases empty : message = ""
          · exact ⟨unexpectedShape, Or.inr (if_pos empty), by simp [empty], by simp, fun _ => rfl⟩
          · exact ⟨message, Or.inl (if_neg empty), by simp, by simp, by simp [empty]⟩
      | _ => exact ⟨_, Or.inl rfl, nofun, by simp, by simp⟩

end Answer

end ChunkPrune
