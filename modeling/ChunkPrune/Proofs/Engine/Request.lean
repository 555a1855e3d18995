import ChunkPrune.Engine.External
import ChunkPrune.Proofs.Chunk.Found
import ChunkPrune.Proofs.Engine.Config
import ChunkPrune.Proofs.Usage.Recorded

/-!
# Requests

What a report describes is read, put into a configuration, printed, read again by the engine and
printed once more with the source of the chunk. It survives all of this: however deep the
description is, the configuration is accepted, and the program gets one document from which it
can read the source and the configuration as they are.
-/

namespace ChunkPrune

/-- A program that is called gets a text, which is one document with the given configuration and
with the source of the call. -/
structure ExternalEngine.Receives (call : EngineCall) (config : Json) (input : String) :
    Prop where
  accepted : Json.read? call.config = some config
  started : ∀ (command : ExternalEngine) (tree : FileTree),
    command.toEngine tree call = answer (command.program.run tree command.arguments input)
  decoded : Json.readWithin? none input =
    some (.object [("config", config), ("source", .string call.source)])

/-- A configuration whose numbers are read back, and that is not too deep, is received. -/
theorem ExternalEngine.receives_compact {config : Json}
    (sound : Json.Sound Json.Number.Rereads config) (deep : config.depth ≤ Json.nestingLimit)
    (source : String) :
    Receives ⟨source, config.compact⟩ config (request source config).compact := by
  have accepted : Json.read? config.compact = some config :=
    sound.readWithin?_compact (Json.admits_some_iff.mpr deep)
  have whole : Json.Sound Json.Number.Rereads (request source config) := by
    have below : "config" < "source" := by decide
    refine .object (List.pairwise_pair.mpr below) (List.forall_mem_cons.mpr ⟨sound, ?_⟩)
    exact List.forall_mem_cons.mpr ⟨.string source, List.forall_mem_nil _⟩
  refine ⟨accepted, fun command tree => ?_, whole.readWithin?_compact (Json.admits_none _)⟩
  simp only [toEngine, accepted]

/-! ## Configurations as reports -/

theorem LibraryRecord.ext {first second : LibraryRecord} (exports : first.exports = second.exports)
    (characteristics : first.characteristics = second.characteristics) : first = second := by
  cases first
  cases second
  cases exports
  cases characteristics
  rfl

/-- The members of a configuration record the flags. -/
theorem LibraryRecord.exports_configMembers {flags : Table String Bool}
    (free : flags.get? characteristicsKey = none) (characteristics : Characteristics) :
    (ofJson (.object (configMembers flags characteristics).entries)).exports = flags := by
  apply Table.ext_get?
  intro key
  apply Option.ext
  intro used
  rw [get?_exports_ofJson (Table.ordered _)]
  constructor
  · rintro ⟨notReserved, value, found, truthy⟩
    obtain ⟨flag, there, rfl⟩ := (get?_configMembers_eq_some notReserved).mp found
    exact truthy ▸ there
  · intro there
    have notReserved : key ≠ characteristicsKey := by
      rintro rfl
      rw [free] at there
      cases there
    exact ⟨notReserved, .bool used,
      (get?_configMembers_eq_some notReserved).mpr ⟨used, there, rfl⟩, rfl⟩

/-- A configuration reads as a report with one library, which has its flags and characteristics. -/
theorem UsageReport.read?_engineConfig {flags : Table String Bool}
    {characteristics : Characteristics} (free : flags.get? characteristicsKey = none)
    (sound : Json.Sound Json.Number.Rereads characteristics.toJson)
    (room : characteristics.toJson.depth + 3 ≤ Json.nestingLimit) (library : String) :
    read? (engineConfig library flags characteristics).compact =
      some ⟨Table.singleton library ⟨flags, some characteristics⟩⟩ := by
  have config := sound_engineConfig sound library flags
  have deep := depth_engineConfig library flags characteristics
  rw [engineConfig_eq] at config deep ⊢
  obtain ⟨document, spells⟩ := (config.get? (Entries.get?_singleton _ _)).exists_spells
  have outer := spells.single librariesKey
  have inner : document.value? (some (Json.nestingLimit - 1)) = some (.object
      [(library, .object (configMembers flags characteristics).entries)]) := by
    refine spells.value _ (Json.admits_some_iff.mpr ?_)
    have lower := Json.depth_lt_of_get? (Entries.get?_singleton librariesKey (Json.object
      [(library, .object (configMembers flags characteristics).entries)]))
    omega
  have record : LibraryRecord.ofJson (.object (configMembers flags characteristics).entries) =
      ⟨flags, some characteristics⟩ :=
    LibraryRecord.ext (LibraryRecord.exports_configMembers free characteristics)
      (LibraryRecord.characteristics_ofJson.mpr (get?_configMembers_key flags characteristics))
  rw [read?, outer.read?_compact]
  simp only [ofDocument?, fields?, Json.Document.text?_printedUnits, decide_true,
    List.filter_cons_of_pos, List.filter_nil, ofLibraries?, inner, List.map_cons, List.map_nil,
    record]
  exact congrArg (fun table => some (UsageReport.mk table))
    (Table.ofList_entries (Table.singleton library _))

/-! ## Calls for located chunks -/

namespace Chunk

variable {tree : FileTree} {reports : List AppReport} {chunk : Chunk}

/-- The text of the report that a chunk comes from records its characteristics. -/
theorem From.records {report : AppReport} {record : LibraryRecord}
    (source : From tree report record chunk) {text : String}
    (read : UsageReport.read? text = some report.report) :
    UsageReport.Records text chunk.library characteristicsKey chunk.characteristics.toJson :=
  (UsageReport.characteristics_iff read).mp
    ⟨record, Table.mem_entries_iff.mp source.library, source.characteristics⟩

/-- The engine receives exactly the source and the configuration. Whatever texts the reports are
read from and however deep they are, and whatever the source of a located chunk is, the
configuration for the chunk is read again as the value that it was built as. The program gets one
document, in which this value and the source stand alone; under the reserved key of the library,
the value has the object that stands there in the text of the report. Of the doubles in this
object it is assumed that their texts are read back. -/
theorem receives_config (tree : FileTree) (reports : List AppReport)
    (read : ∀ report ∈ reports, ∃ text, UsageReport.read? text = some report.report)
    (chunk : Chunk) (located : chunk ∈ locate tree reports)
    (doubles : ∀ value, Json.HasNumber (.double value) chunk.characteristics.toJson →
      Json.Number.ReadsBack value)
    (merged : MergedUsage) (settings : PruneSettings) (source : String) :
    ∃ config input,
      config = engineConfig chunk.library (merged.keepFlags chunk.library)
        chunk.characteristics ∧
      config.depth ≤ Json.nestingLimit ∧
      ExternalEngine.Receives ⟨source, (chunk.begin merged settings).1.config⟩ config input ∧
      ((config.get? librariesKey).bind (·.get? chunk.library)).bind (·.get? characteristicsKey) =
        some chunk.characteristics.toJson ∧
      ∃ report ∈ reports, ∃ record, From tree report record chunk ∧
        ∀ text, UsageReport.read? text = some report.report → UsageReport.Records text
          chunk.library characteristicsKey chunk.characteristics.toJson := by
  obtain ⟨report, member, record, origin⟩ := from_of_mem_locate located
  obtain ⟨text, textRead⟩ := read report member
  obtain ⟨sound, room⟩ := (origin.records textRead).sound
  have configSound := sound_engineConfig (sound.rereads doubles) chunk.library
    (merged.keepFlags chunk.library)
  have deep : (engineConfig chunk.library (merged.keepFlags chunk.library)
      chunk.characteristics).depth ≤ Json.nestingLimit := by
    rw [depth_engineConfig]
    exact room
  refine ⟨_, _, rfl, deep, ExternalEngine.receives_compact configSound deep source, ?_, report,
    member, record, origin, fun _ => origin.records⟩
  exact get?_engineConfig chunk.library _ chunk.characteristics

end Chunk

/-! ## A report as deep as can be read -/

/-- One half. -/
def Binary64.half : Binary64 := ⟨false, Binary64.leastFull, -53⟩

/-- Arrays within arrays, the innermost of which is empty. -/
def Json.nested : Nat → Json
  | 0 => .array []
  | count + 1 => .array [nested count]

theorem Json.depth_nested (count : Nat) : (Json.nested count).depth = count + 1 := by
  induction count with
  | zero => rfl
  | succ count inductionHypothesis =>
      rw [nested, Json.depth, Json.depthItems, Json.depthItems, inductionHypothesis, Nat.max_zero]

theorem Json.sound_nested (numbers : Json.Number → Prop) (count : Nat) :
    Json.Sound numbers (Json.nested count) := by
  induction count with
  | zero => exact .array (List.forall_mem_nil _)
  | succ count inductionHypothesis =>
      exact .array fun item listed => List.mem_singleton.mp listed ▸ inductionHypothesis

theorem Json.not_hasNumber_nested (number : Json.Number) (count : Nat) :
    ¬ Json.HasNumber number (Json.nested count) := by
  induction count with
  | zero =>
      intro has
      cases has with
      | item listed within => exact absurd listed List.not_mem_nil
  | succ count inductionHypothesis =>
      intro has
      cases has with
      | item listed within => exact inductionHypothesis (List.mem_singleton.mp listed ▸ within)

theorem readsBack_half : Json.Number.ReadsBack Binary64.half := by
  rw [Json.Number.ReadsBack]
  decide +kernel

/-- Characteristics with fields that are not interpreted, one of which leaves no room. -/
def deepCharacteristics : Characteristics :=
  ⟨[("chunk_files", .array [.string "a.js"]), ("deep", .nested 122),
    ("entry_module_id", .string "main"), ("weight", .number (.double Binary64.half))]⟩

theorem eq_half_of_hasNumber {value : Binary64}
    (has : Json.HasNumber (.double value) deepCharacteristics.toJson) : value = Binary64.half := by
  cases has with
  | member listed within =>
      simp only [deepCharacteristics, List.mem_cons, List.not_mem_nil, or_false] at listed
      rcases listed with rfl | rfl | rfl | rfl
      · cases within with
        | item listed within =>
            rw [List.mem_singleton.mp listed] at within
            cases within
      · exact absurd within (Json.not_hasNumber_nested _ _)
      · cases within
      · cases within
        rfl

theorem sound_deepCharacteristics :
    Json.Sound Json.Number.Rereads deepCharacteristics.toJson := by
  have ordered : Entries.Ordered deepCharacteristics.members := by
    rw [Entries.Ordered]
    decide
  refine .object ordered fun member listed => ?_
  simp only [deepCharacteristics, List.mem_cons, List.not_mem_nil, or_false] at listed
  rcases listed with rfl | rfl | rfl | rfl
  · exact .array fun item listed => List.mem_singleton.mp listed ▸ .string _
  · exact Json.sound_nested _ _
  · exact .string _
  · exact .number readsBack_half.rereads

theorem depth_deepCharacteristics :
    deepCharacteristics.toJson.depth + 3 = Json.nestingLimit := by
  simp only [Characteristics.toJson, deepCharacteristics, Json.depth, Json.depthMembers,
    Json.depthItems, Json.depth_nested]
  rfl

/-- The text of a report with these characteristics. -/
def deepUsageText : String :=
  (engineConfig "library" (Table.singleton "used" true) deepCharacteristics).compact

def deepReport : AppReport :=
  ⟨"app", ⟨Table.singleton "library" ⟨Table.singleton "used" true, some deepCharacteristics⟩⟩,
    loneDir.join ⟨"u"⟩, loneDir⟩

def deepChunk : Chunk := ⟨loneSite.path, "app", loneSite.name, "library", deepCharacteristics⟩

theorem read?_deepUsageText : UsageReport.read? deepUsageText = some deepReport.report :=
  UsageReport.read?_engineConfig rfl sound_deepCharacteristics
    (Nat.le_of_eq depth_deepCharacteristics) "library"

theorem deepChunk_mem_locate :
    deepChunk ∈ Chunk.locate (loneTree "a".toUTF8) [deepReport] := by
  have enters := enters_loneDir "a".toUTF8
  have isDirectory : (loneTree "a".toUTF8).isDirectory deepReport.outputDir = true := by
    rw [FileTree.isDirectory, deepReport, enters.lookup true]
  have listed : Chunk.Listed deepReport "library" deepCharacteristics loneSite.name :=
    ⟨⟨_, List.mem_singleton_self _, rfl⟩, ⟨_, rfl, List.mem_singleton_self _⟩⟩
  have isFile : (loneTree "a".toUTF8).isFile loneSite.path = true :=
    ((holds_loneTree _).reaches (linkFree_loneTree _)).isFile (holds_loneTree _).chunk
  have target : Chunk.isTarget loneSite.name = true := by decide
  have place : deepReport.outputDir.location = loneSite.directory :=
    Path.location_pathOf loneSite.directoryNames
  have file := locateFile?_site target enters.absolute place isFile "library" deepCharacteristics
  exact listed.mem_locate (List.mem_singleton_self _) isDirectory file

/-- A description that is as deep as can be read, and has a double, is received. The configuration
is as deep as the engine accepts. -/
theorem receives_config_deepReport :
    (∀ report ∈ [deepReport], ∃ text, UsageReport.read? text = some report.report) ∧
      deepChunk ∈ Chunk.locate (loneTree "a".toUTF8) [deepReport] ∧
      (∀ value, Json.HasNumber (.double value) deepChunk.characteristics.toJson →
        Json.Number.ReadsBack value) ∧
      Json.HasNumber (.double Binary64.half) deepChunk.characteristics.toJson ∧
      (deepChunk.begin loneUsage steadySettings).2 = .read ∧
      ∃ config input, config.depth = Json.nestingLimit ∧
        ExternalEngine.Receives ⟨"a", (deepChunk.begin loneUsage steadySettings).1.config⟩ config
          input := by
  have read : ∀ report ∈ [deepReport], ∃ text, UsageReport.read? text = some report.report := by
    intro report member
    rw [List.mem_singleton.mp member]
    exact ⟨_, read?_deepUsageText⟩
  have doubles : ∀ value, Json.HasNumber (.double value) deepChunk.characteristics.toJson →
      Json.Number.ReadsBack value := by
    intro value has
    rw [eq_half_of_hasNumber has]
    exact readsBack_half
  have hasHalf : Json.HasNumber (.double Binary64.half) deepChunk.characteristics.toJson :=
    Json.HasNumber.member (List.mem_of_getElem? (i := 3) rfl) .here
  obtain ⟨config, input, rfl, -, receives, -⟩ := Chunk.receives_config (loneTree "a".toUTF8)
    [deepReport] read deepChunk deepChunk_mem_locate doubles loneUsage steadySettings "a"
  refine ⟨read, deepChunk_mem_locate, doubles, hasHalf, rfl, _, input, ?_, receives⟩
  rw [depth_engineConfig]
  exact depth_deepCharacteristics

end ChunkPrune
