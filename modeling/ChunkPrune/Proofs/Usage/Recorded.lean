import ChunkPrune.Usage.Load
import ChunkPrune.Proofs.Json.Compact

/-!
# What usage reports record

The text of a usage report has values at the keys of its libraries. A report that was read
says of each value but that of the reserved key whether it counts as true, and keeps the
object under the reserved key.
-/

namespace ChunkPrune

/-- A document has libraries: under their key in an object, or alone in a list. -/
inductive UsageReport.Libraries : Json.Document → List (String × Json) → Prop
  | object {members : List (List Json.TextUnit × Json.Document)} {key : List Json.TextUnit}
      {document : Json.Document} {libraries : List (String × Json)}
      (listed : (key, document) ∈ members)
      (named : Json.Document.text? key = some librariesKey)
      (value : document.value? (some (Json.nestingLimit - 1)) = some (.object libraries)) :
      Libraries (.object members) libraries
  | array {document : Json.Document} {libraries : List (String × Json)}
      (value : document.value? (some (Json.nestingLimit - 1)) = some (.object libraries)) :
      Libraries (.array [document]) libraries

/-- The text of a report has a value at a key of a library. -/
def UsageReport.Records (text library key : String) (value : Json) : Prop :=
  ∃ document libraries members, Json.Document.read? text = some document ∧
    Libraries document libraries ∧ Entries.get? library libraries = some (.object members) ∧
    Entries.get? key members = some value

/-- The values that count as true. -/
inductive Json.CountsAsTrue : Json → Prop
  | bool : CountsAsTrue (.bool true)
  | integer {value : Int} (nonzero : value ≠ 0) : CountsAsTrue (.number (.integer value))
  | double {value : Binary64} (nonzero : value.significand ≠ 0) :
      CountsAsTrue (.number (.double value))
  | string {value : String} (nonempty : value ≠ "") : CountsAsTrue (.string value)
  | array (items : List Json) : CountsAsTrue (.array items)
  | object (members : List (String × Json)) : CountsAsTrue (.object members)

theorem Json.truthy_iff {value : Json} : value.truthy = true ↔ value.CountsAsTrue := by
  constructor
  · intro truthy
    cases value with
    | null => cases truthy
    | bool flag =>
        cases truthy
        exact .bool
    | number number =>
        cases number with
        | integer value => exact .integer (by simpa [Json.truthy] using truthy)
        | double value => exact .double (by simpa [Json.truthy, Binary64.isZero] using truthy)
    | string value => exact .string (by simpa [Json.truthy] using truthy)
    | array items => exact .array items
    | object members => exact .object members
  · intro counts
    cases counts with
    | bool => rfl
    | integer nonzero => simpa [Json.truthy] using nonzero
    | double nonzero => simpa [Json.truthy, Binary64.isZero] using nonzero
    | string nonempty => simpa [Json.truthy] using nonempty
    | array items => rfl
    | object members => rfl

/-! ## Records of libraries -/

theorem LibraryRecord.get?_exports_ofJson {members : List (String × Json)}
    (ordered : Entries.Ordered members) {key : String} {used : Bool} :
    (LibraryRecord.ofJson (.object members)).exports.get? key = some used ↔
      key ≠ characteristicsKey ∧ ∃ value, Entries.get? key members = some value ∧
        value.truthy = used := by
  have flags : Entries.Ordered ((members.filter fun entry => entry.1 ≠ characteristicsKey).map
      fun entry => (entry.1, entry.2.truthy)) :=
    Entries.ordered_map (fun _ value => value.truthy) (Entries.ordered_filter _ ordered)
  have looked : (LibraryRecord.ofJson (.object members)).exports.get? key =
      Entries.get? key ((members.filter fun entry => entry.1 ≠ characteristicsKey).map
        fun entry => (entry.1, entry.2.truthy)) := Table.get?_ofList_of_ordered flags key
  rw [looked, Entries.get?_map fun _ value => Json.truthy value]
  by_cases reserved : key = characteristicsKey
  · subst reserved
    have absent : Entries.get? characteristicsKey
        (members.filter fun entry => entry.1 ≠ characteristicsKey) = none := by
      refine Entries.get?_eq_none_of_not_mem fun member => ?_
      obtain ⟨entry, entryMember, same⟩ := List.mem_map.mp member
      exact of_decide_eq_true (List.mem_filter.mp entryMember).2 same
    rw [absent]
    constructor
    · intro found
      cases found
    · intro both
      exact absurd rfl both.1
  · rw [Entries.get?_filter_ne reserved, Option.map_eq_some_iff]
    constructor
    · intro found
      exact ⟨reserved, found⟩
    · intro both
      exact both.2

theorem LibraryRecord.characteristics_ofJson {members : List (String × Json)}
    {characteristics : Characteristics} :
    (LibraryRecord.ofJson (.object members)).characteristics = some characteristics ↔
      Entries.get? characteristicsKey members = some (.object characteristics.members) := by
  simp only [LibraryRecord.ofJson]
  split
  next fields found =>
    rw [found]
    constructor
    · intro same
      cases same
      rfl
    · intro same
      cases same
      rfl
  next other =>
    constructor
    · intro same
      cases same
    · intro found
      exact absurd found (other characteristics.members)

/-- A value that is no object records nothing. -/
theorem LibraryRecord.ofJson_cases (value : Json) :
    LibraryRecord.ofJson value = ⟨Table.empty, none⟩ ∨ ∃ members, value = .object members := by
  cases value with
  | object members => exact Or.inr ⟨members, rfl⟩
  | null => exact Or.inl rfl
  | bool flag => exact Or.inl rfl
  | number number => exact Or.inl rfl
  | string text => exact Or.inl rfl
  | array items => exact Or.inl rfl

namespace UsageReport

variable {text : String} {report : UsageReport}

theorem mem_fields? {parts : List (List Json.TextUnit × Json.Document)}
    {fields : List (String × Json.Document)} (read : fields? parts = some fields) {key : String}
    {document : Json.Document} :
    (key, document) ∈ fields ↔
      ∃ units, (units, document) ∈ parts ∧ Json.Document.text? units = some key := by
  induction parts generalizing fields with
  | nil =>
      cases read
      simp
  | cons part rest inductionHypothesis =>
      obtain ⟨units, first⟩ := part
      rw [fields?] at read
      split at read
      next name others named further =>
        cases read
        rw [List.mem_cons, inductionHypothesis further]
        constructor
        · rintro (same | ⟨other, member, otherNamed⟩)
          · cases same
            exact ⟨units, List.mem_cons_self, named⟩
          · exact ⟨other, List.mem_cons_of_mem _ member, otherNamed⟩
        · rintro ⟨other, member, otherNamed⟩
          rcases List.mem_cons.mp member with same | member
          · cases same
            rw [named] at otherNamed
            cases otherNamed
            exact Or.inl rfl
          · exact Or.inr ⟨other, member, otherNamed⟩
      · cases read

theorem get?_libraries_of_ofLibraries? {document : Json.Document}
    (read : ofLibraries? document = some report) {library : String} {record : LibraryRecord} :
    report.libraries.get? library = some record ↔
      ∃ libraries value, document.value? (some (Json.nestingLimit - 1)) = some (.object libraries) ∧
        Entries.get? library libraries = some value ∧ LibraryRecord.ofJson value = record := by
  rw [ofLibraries?] at read
  split at read
  next libraries valued =>
    cases read
    have ordered := (Json.Document.sound_of_value? document valued).1.ordered
    rw [Table.get?_ofList_of_ordered
      (Entries.ordered_map (fun _ value => LibraryRecord.ofJson value) ordered),
      Entries.get?_map (fun _ value => LibraryRecord.ofJson value), Option.map_eq_some_iff, valued]
    constructor
    · intro found
      obtain ⟨value, there, same⟩ := found
      exact ⟨libraries, value, rfl, there, same⟩
    · intro found
      obtain ⟨others, value, same, there⟩ := found
      cases same
      exact ⟨value, there⟩
  · cases read

theorem libraries_object_iff {members : List (List Json.TextUnit × Json.Document)}
    {fields : List (String × Json.Document)} (read : fields? members = some fields)
    {libraries : List (String × Json)} :
    Libraries (.object members) libraries ↔
      ∃ document, (librariesKey, document) ∈ fields.filter (fun field => field.1 = librariesKey) ∧
        document.value? (some (Json.nestingLimit - 1)) = some (.object libraries) := by
  constructor
  · intro has
    cases has with
    | object listed named valued =>
        have member := (mem_fields? read).mpr ⟨_, listed, named⟩
        exact ⟨_, List.mem_filter.mpr ⟨member, decide_eq_true rfl⟩, valued⟩
  · intro found
    obtain ⟨document, member, valued⟩ := found
    obtain ⟨units, listed, named⟩ := (mem_fields? read).mp (List.mem_filter.mp member).1
    exact .object listed named valued

theorem libraries_array_iff {document : Json.Document} {libraries : List (String × Json)} :
    Libraries (.array [document]) libraries ↔
      document.value? (some (Json.nestingLimit - 1)) = some (.object libraries) := by
  constructor
  · intro has
    cases has with
    | array valued => exact valued
  · exact .array

/-- A report has a record of exactly the libraries that its document has. -/
theorem get?_libraries_iff {document : Json.Document} (read : ofDocument? document = some report)
    {library : String} {record : LibraryRecord} :
    report.libraries.get? library = some record ↔
      ∃ libraries value, Libraries document libraries ∧
        Entries.get? library libraries = some value ∧ LibraryRecord.ofJson value = record := by
  unfold ofDocument? at read
  split at read
  next members =>
    split at read
    · cases read
    next fields fieldsRead =>
      simp only [libraries_object_iff fieldsRead]
      split at read
      next none =>
        cases read
        simp [none]
      next key document single =>
        have named : key = librariesKey := by
          have kept : (key, document) ∈ fields.filter fun field => field.1 = librariesKey := by
            rw [single]
            exact List.mem_singleton_self _
          exact of_decide_eq_true (List.mem_filter.mp kept).2
        rw [get?_libraries_of_ofLibraries? read, single, named]
        simp
      · cases read
  next =>
    cases read
    constructor
    · intro found
      cases found
    · intro found
      obtain ⟨libraries, value, has, -⟩ := found
      cases has
  next document =>
    simp only [libraries_array_iff]
    exact get?_libraries_of_ofLibraries? read
  · cases read

/-- The libraries of a document stand one level deep in it. -/
theorem sound_of_libraries {document : Json.Document} {libraries : List (String × Json)}
    (has : Libraries document libraries) :
    Json.Sound Json.Number.InRange (.object libraries) ∧
      (Json.object libraries).depth ≤ Json.nestingLimit - 1 := by
  have valued : ∃ part, Json.Document.value? (some (Json.nestingLimit - 1)) part =
      some (.object libraries) := by
    cases has with
    | object listed named value => exact ⟨_, value⟩
    | array value => exact ⟨_, value⟩
  obtain ⟨part, value⟩ := valued
  obtain ⟨sound, admits⟩ := Json.Document.sound_of_value? part value
  exact ⟨sound, Json.admits_some_iff.mp admits⟩

theorem ordered_of_libraries {document : Json.Document} {libraries members : List (String × Json)}
    {library : String} (has : Libraries document libraries)
    (found : Entries.get? library libraries = some (.object members)) :
    Entries.Ordered members :=
  ((sound_of_libraries has).1.get? found).ordered

/-- What is recorded leaves room for three more levels within the usual limit. -/
theorem Records.sound {library key : String} {value : Json}
    (records : Records text library key value) :
    Json.Sound Json.Number.InRange value ∧ value.depth + 3 ≤ Json.nestingLimit := by
  obtain ⟨document, libraries, members, -, has, found, there⟩ := records
  obtain ⟨sound, deep⟩ := sound_of_libraries has
  have libraryDepth := Json.depth_lt_of_get? found
  have valueDepth := Json.depth_lt_of_get? there
  have room : 1 ≤ Json.nestingLimit := by decide
  exact ⟨(sound.get? found).get? there, by omega⟩

/-- The flags of a report that was read: one for each recorded value but the reserved one. -/
theorem get?_exports_iff (read : read? text = some report) {library key : String} {used : Bool} :
    (∃ record, report.libraries.get? library = some record ∧
        record.exports.get? key = some used) ↔
      key ≠ characteristicsKey ∧ ∃ value, Records text library key value ∧
        value.truthy = used := by
  rw [read?] at read
  split at read
  next document scanned =>
    constructor
    · rintro ⟨record, found, flag⟩
      obtain ⟨libraries, value, has, there, rfl⟩ := (get?_libraries_iff read).mp found
      rcases LibraryRecord.ofJson_cases value with nothing | ⟨members, rfl⟩
      · rw [nothing] at flag
        cases flag
      · obtain ⟨notReserved, recorded, member, truthy⟩ :=
          (LibraryRecord.get?_exports_ofJson (ordered_of_libraries has there)).mp flag
        exact ⟨notReserved, recorded, ⟨document, libraries, members, scanned, has, there, member⟩,
          truthy⟩
    · rintro ⟨notReserved, value, ⟨other, libraries, members, otherScanned, has, there, member⟩,
        truthy⟩
      rw [scanned] at otherScanned
      cases otherScanned
      refine ⟨_, (get?_libraries_iff read).mpr ⟨libraries, _, has, there, rfl⟩, ?_⟩
      exact (LibraryRecord.get?_exports_ofJson (ordered_of_libraries has there)).mpr
        ⟨notReserved, value, member, truthy⟩
  · cases read

/-- The characteristics of a report that was read are the objects under the reserved key. -/
theorem characteristics_iff (read : read? text = some report) {library : String}
    {characteristics : Characteristics} :
    (∃ record, report.libraries.get? library = some record ∧
        record.characteristics = some characteristics) ↔
      Records text library characteristicsKey (.object characteristics.members) := by
  rw [read?] at read
  split at read
  next document scanned =>
    constructor
    · rintro ⟨record, found, kept⟩
      obtain ⟨libraries, value, has, there, rfl⟩ := (get?_libraries_iff read).mp found
      rcases LibraryRecord.ofJson_cases value with nothing | ⟨members, rfl⟩
      · rw [nothing] at kept
        cases kept
      · exact ⟨document, libraries, members, scanned, has, there,
          LibraryRecord.characteristics_ofJson.mp kept⟩
    · rintro ⟨other, libraries, members, otherScanned, has, there, member⟩
      rw [scanned] at otherScanned
      cases otherScanned
      exact ⟨_, (get?_libraries_iff read).mpr ⟨libraries, _, has, there, rfl⟩,
        LibraryRecord.characteristics_ofJson.mpr member⟩
  · cases read

end UsageReport

/-! ## Loaded reports -/

/-- The file of a loaded report has a value at a key of a library. -/
def AppReport.Records (tree : FileTree) (report : AppReport) (library key : String)
    (value : Json) : Prop :=
  ∃ text, tree.readText report.sourcePath = .ok text ∧
    UsageReport.Records text library key value

section Loaded

variable {tree : FileTree} {usageFile : String} {apps : List Application}
  {reports : List AppReport} {report : AppReport}

/-- A report of an application was read from the usage file in its output directory. -/
theorem Application.exists_text_of_load {app : Application}
    (load : app.load? tree usageFile = some report) :
    report.app = app.name ∧ report.outputDir = app.outputDir ∧
      report.sourcePath = app.outputDir.join ⟨usageFile⟩ ∧
      ∃ text, tree.readText report.sourcePath = .ok text ∧
        UsageReport.read? text = some report.report := by
  rw [load?] at load
  split at load
  · split at load
    next usage read =>
      cases load
      refine ⟨rfl, rfl, rfl, ?_⟩
      rw [FileTree.readReport] at read
      split at read
      · cases read
      next text readText =>
        split at read
        next found =>
          cases read
          exact ⟨text, readText, found⟩
        · cases read
    · cases load
  · cases load

theorem filterMap_load?_of_loadReports (loaded : loadReports tree usageFile apps = .ok reports) :
    apps.filterMap (Application.load? tree usageFile) = reports := by
  rw [loadReports] at loaded
  split at loaded
  · cases loaded
  · exact Except.ok.inj loaded

theorem exists_load_of_loadReports (loaded : loadReports tree usageFile apps = .ok reports)
    (member : report ∈ reports) : ∃ app ∈ apps, app.load? tree usageFile = some report := by
  rw [← filterMap_load?_of_loadReports loaded] at member
  exact List.mem_filterMap.mp member

/-- A loaded report was read from the file of an application. -/
theorem exists_text_of_loadReports (loaded : loadReports tree usageFile apps = .ok reports)
    (member : report ∈ reports) :
    ∃ app ∈ apps, report.app = app.name ∧ report.outputDir = app.outputDir ∧
      ∃ text, tree.readText report.sourcePath = .ok text ∧
        UsageReport.read? text = some report.report := by
  obtain ⟨app, appMember, load⟩ := exists_load_of_loadReports loaded member
  obtain ⟨name, outputDir, -, read⟩ := Application.exists_text_of_load load
  exact ⟨app, appMember, name, outputDir, read⟩

theorem get?_exports_iff_records (loaded : loadReports tree usageFile apps = .ok reports)
    (member : report ∈ reports) {library key : String} {used : Bool} :
    (∃ record, report.report.libraries.get? library = some record ∧
        record.exports.get? key = some used) ↔
      key ≠ characteristicsKey ∧ ∃ value, report.Records tree library key value ∧
        value.truthy = used := by
  obtain ⟨-, -, -, -, text, readText, read⟩ := exists_text_of_loadReports loaded member
  rw [UsageReport.get?_exports_iff read]
  constructor
  · rintro ⟨notReserved, value, records, truthy⟩
    exact ⟨notReserved, value, ⟨text, readText, records⟩, truthy⟩
  · rintro ⟨notReserved, value, ⟨other, otherRead, records⟩, truthy⟩
    rw [readText] at otherRead
    cases otherRead
    exact ⟨notReserved, value, records, truthy⟩

theorem records_characteristics (loaded : loadReports tree usageFile apps = .ok reports)
    (member : report ∈ reports) {library : String} {record : LibraryRecord}
    {characteristics : Characteristics}
    (found : report.report.libraries.get? library = some record)
    (kept : record.characteristics = some characteristics) :
    report.Records tree library characteristicsKey characteristics.toJson := by
  obtain ⟨-, -, -, -, text, readText, read⟩ := exists_text_of_loadReports loaded member
  exact ⟨text, readText, (UsageReport.characteristics_iff read).mp ⟨record, found, kept⟩⟩

end Loaded

end ChunkPrune
