import ChunkPrune.Run
import ChunkPrune.Proofs.FileTree.Route
import ChunkPrune.Proofs.Json.Reread
import ChunkPrune.Proofs.Usage.LeastBound

/-!
# Merged usage as a report

Merged usage that is printed can be read as a report again: it has the merged flags and
describes no library. So merging can be staged. A report of what was merged before stands for
all the reports in it.
-/

namespace ChunkPrune

/-- A report with flags only. -/
def UsageReport.ofFlags (flags : ExportFlags) : UsageReport :=
  ⟨flags.map fun _ exports => ⟨exports, none⟩⟩

namespace ExportFlags

variable {flags : ExportFlags}

theorem ofReport_ofFlags (flags : ExportFlags) : ofReport (.ofFlags flags) = flags := by
  apply Table.ext_get?
  intro library
  rw [ofReport, UsageReport.ofFlags, Table.get?_map, Table.get?_map, Option.map_map]
  exact Option.map_id_apply

/-- The flags of several reports stand for the reports in every later merge. -/
theorem merge_ofFlags_cons (reports others : List UsageReport) :
    merge (.ofFlags (merge reports) :: others) = merge (reports ++ others) := by
  have single : merge [.ofFlags (merge reports)] = merge reports := by
    apply eq_of_forall_ge_iff
    intro above
    rw [merge_le_iff, List.forall_mem_singleton, ofReport_ofFlags]
  rw [← List.singleton_append, merge_append, merge_append, single]

/-! ## Printed flags -/

/-- The members of a library in printed flags. -/
theorem toJson_eq (flags : ExportFlags) :
    flags.toJson = .object (flags.map fun _ exports =>
      Json.object (exports.map fun _ used => Json.bool used).entries).entries := rfl

/-- Printed flags are two objects deep. -/
theorem fits_toJson (flags : ExportFlags) {limit : Nat} (room : 2 ≤ limit) :
    Json.Fits (some limit) flags.toJson := by
  rw [toJson_eq]
  refine ⟨?_, Table.ordered _, Json.fitsMembers_iff.mpr fun member listed => ?_⟩
  · rw [Ne, Option.some_inj]
    omega
  · obtain ⟨⟨library, exports⟩, -, rfl⟩ := List.mem_map.mp listed
    refine ⟨?_, Table.ordered _, Json.fitsMembers_iff.mpr fun flag flagListed => ?_⟩
    · rw [Option.map_some, Ne, Option.some_inj]
      omega
    · obtain ⟨⟨key, used⟩, -, rfl⟩ := List.mem_map.mp flagListed
      trivial

theorem numberless_toJson (flags : ExportFlags) : Json.Numberless flags.toJson :=
  (fits_toJson flags le_rfl).numberless

/-- The object of a library without a flag at the reserved key records just its exports. -/
theorem ofJson_exports {exports : Table String Bool}
    (noReserved : exports.get? characteristicsKey = none) :
    LibraryRecord.ofJson (.object (exports.map fun _ used => Json.bool used).entries) =
      ⟨exports, none⟩ := by
  have ordered := (exports.map fun _ used => Json.bool used).ordered
  have looked : ∀ key, Entries.get? key (exports.map fun _ used => Json.bool used).entries =
      (exports.get? key).map Json.bool := Table.get?_map (fun _ used => Json.bool used) exports
  have sameExports : (LibraryRecord.ofJson
      (.object (exports.map fun _ used => Json.bool used).entries)).exports = exports := by
    apply Table.ext_get?
    intro key
    apply Option.ext
    intro used
    rw [LibraryRecord.get?_exports_ofJson ordered, looked]
    constructor
    · rintro ⟨-, value, found, truthy⟩
      obtain ⟨flag, there, rfl⟩ := Option.map_eq_some_iff.mp found
      exact truthy ▸ there
    · intro found
      refine ⟨?_, .bool used, by rw [found]; rfl, rfl⟩
      rintro rfl
      rw [noReserved] at found
      cases found
  have noCharacteristics : (LibraryRecord.ofJson
      (.object (exports.map fun _ used => Json.bool used).entries)).characteristics = none := by
    rw [Option.eq_none_iff_forall_ne_some]
    intro characteristics kept
    have found := LibraryRecord.characteristics_ofJson.mp kept
    rw [looked, noReserved] at found
    cases found
  cases record : LibraryRecord.ofJson
      (.object (exports.map fun _ used => Json.bool used).entries) with
  | mk recordExports recordCharacteristics =>
      rw [record] at sameExports noCharacteristics
      rw [LibraryRecord.mk.injEq]
      exact ⟨sameExports, noCharacteristics⟩

/-- The document of printed flags is read as the report with the flags. -/
theorem ofLibraries?_toJson
    (noReserved : ∀ library, flags.flag? library characteristicsKey = none) :
    UsageReport.ofLibraries? flags.toJson.document = some (.ofFlags flags) := by
  have valued := Json.value?_document flags.toJson (some (Json.nestingLimit - 1))
    (fits_toJson flags (by decide))
  have records : flags.map (fun _ exports => LibraryRecord.ofJson
      (.object (exports.map fun _ used => Json.bool used).entries)) =
      flags.map fun _ exports => ⟨exports, none⟩ := by
    apply Table.ext_get?
    intro library
    rw [Table.get?_map, Table.get?_map]
    cases found : flags.get? library with
    | none => rfl
    | some exports =>
        have absent : exports.get? characteristicsKey = none := by
          have flagged := noReserved library
          rwa [flag?, found] at flagged
        rw [Option.map_some, Option.map_some, ofJson_exports absent]
  have listed : Table.ofList ((flags.map fun _ exports =>
        Json.object (exports.map fun _ used => Json.bool used).entries).entries.map
      fun member => (member.1, LibraryRecord.ofJson member.2)) =
      flags.map fun _ exports => ⟨exports, none⟩ := by
    rw [← records, ← Table.ofList_entries (flags.map fun _ exports => LibraryRecord.ofJson _)]
    exact congrArg Table.ofList List.map_map
  rw [UsageReport.ofLibraries?, valued, toJson_eq]
  exact congrArg (fun libraries => some (UsageReport.mk libraries)) listed

end ExportFlags

namespace MergedUsage

theorem numberless_toJson (merged : MergedUsage) : Json.Numberless merged.toJson := by
  have strings : ∀ texts : List String, Json.NumberlessItems (texts.map .string) := by
    intro texts
    refine Json.numberlessItems_iff.mpr fun item listed => ?_
    obtain ⟨text, -, rfl⟩ := List.mem_map.mp listed
    trivial
  have metadata : Json.NumberlessMembers
      [("timestamp", .string merged.timestamp), ("apps", .array (merged.apps.map .string)),
        ("modules", .array (merged.libraries.map .string))] :=
    ⟨trivial, strings _, strings _, trivial⟩
  exact ⟨ExportFlags.numberless_toJson merged.flags, metadata, trivial⟩

/-- Printed merged usage is read as the report with its flags. What else is printed is passed
over. -/
theorem read?_pretty {merged : MergedUsage}
    (noReserved : ∀ library, merged.flags.flag? library characteristicsKey = none) :
    UsageReport.read? merged.toJson.pretty = some (.ofFlags merged.flags) := by
  rw [UsageReport.read?, Json.Document.read?_pretty merged.numberless_toJson]
  have other : "metadata" ≠ librariesKey := by decide
  simp only [toJson, Json.document, Json.memberDocuments, UsageReport.ofDocument?,
    UsageReport.fields?, Json.Document.text?_printedUnits, List.filter_cons, List.filter_nil,
    other, decide_true, decide_false, if_true, Bool.false_eq_true, if_false]
  exact ExportFlags.ofLibraries?_toJson noReserved

/-- Read from what was printed, `report` says what the merged usage says, and it stands for the
merged reports in further merges. A merge that loads these reports writes what is read so, when the
output can be written. -/
structure StandsFor (report : UsageReport) (merged : MergedUsage) (reports : List AppReport) :
    Prop where
  read : UsageReport.read? merged.toJson.pretty = some report
  written : ∀ (surroundings : Surroundings) (args : MergeArgs) tree root output location,
    surroundings.mergeTime = merged.timestamp →
    ProjectRoot.resolve tree args.workspace.root = .ok root →
    loadReports tree args.workspace.usageFile (args.workspace.applications root) = .ok reports →
    args.output = some output → tree.writable output = .ok location →
    runMerge surroundings args tree =
        (tree.put location (.file merged.toJson.pretty.toUTF8), .ok merged) ∧
      FileTree.readReport (tree.put location (.file merged.toJson.pretty.toUTF8)) output =
        .ok report
  readFile : ∀ surroundings (args : MergeArgs) tree after output, args.output = some output →
    runMerge surroundings args tree = (after, .ok merged) →
    after.readReport output = .ok report
  exports : ∀ library, (report.libraries.get? library).map (·.exports) = merged.flags.get? library
  noCharacteristics : ∀ library record, report.libraries.get? library = some record →
    record.characteristics = none
  staged : ∀ (again : AppReport) (others staged : List AppReport) (time later : String),
    again.report = report → staged.Perm (again :: others) →
    (ofReports time staged).flags = (ofReports later (reports ++ others)).flags

/-- A run that merges writes the text of what it gives. -/
theorem writeFile_of_runMerge {surroundings : Surroundings} {args : MergeArgs}
    {tree after : FileTree} {merged : MergedUsage} {output : Path}
    (given : args.output = some output)
    (run : runMerge surroundings args tree = (after, .ok merged)) :
    tree.writeFile output merged.toJson.pretty.toUTF8 = .ok after := by
  unfold runMerge at run
  split at run
  · cases run
  · split at run
    · cases run
    · simp only [given] at run
      split at run
      next written =>
        cases run
        exact written
      · cases run

/-- A merge writes its output when the root is found, the reports are loaded and the output can be
written. -/
theorem runMerge_eq_put (surroundings : Surroundings) {args : MergeArgs} {tree : FileTree}
    {root output : Path} {reports : List AppReport} {location : Location}
    (resolved : ProjectRoot.resolve tree args.workspace.root = .ok root)
    (loaded : loadReports tree args.workspace.usageFile (args.workspace.applications root) =
      .ok reports)
    (given : args.output = some output) (writable : tree.writable output = .ok location) :
    runMerge surroundings args tree =
      (tree.put location
        (.file (ofReports surroundings.mergeTime reports).toJson.pretty.toUTF8),
        .ok (ofReports surroundings.mergeTime reports)) := by
  simp only [runMerge, resolved, loaded, given, FileTree.writeFile, writable]

/-- The merged usage of loaded reports is printed as a report that stands for them. -/
theorem exists_standsFor (mergeTime : String) {reports : List AppReport}
    (loaded : ∀ report ∈ reports, report.Loaded) :
    ∃ report, StandsFor report (ofReports mergeTime reports) reports := by
  have reserved : ∀ library,
      (ofReports mergeTime reports).flags.flag? library characteristicsKey = none :=
    flag?_ofReports_reserved loaded
  have read := read?_pretty reserved
  have readFile : ∀ surroundings (args : MergeArgs) tree after output,
      args.output = some output →
      runMerge surroundings args tree = (after, .ok (ofReports mergeTime reports)) →
      after.readReport output = .ok (.ofFlags (ofReports mergeTime reports).flags) := by
    intro surroundings args tree after output given run
    have text := FileTree.readText_of_writeFile (writeFile_of_runMerge given run)
    simp only [FileTree.readReport, text, read]
  refine ⟨.ofFlags (ofReports mergeTime reports).flags, read, ?_, readFile, ?_, ?_, ?_⟩
  · intro surroundings args tree root output location time resolved allLoaded given writable
    have run := runMerge_eq_put surroundings resolved allLoaded given writable
    rw [time] at run
    exact ⟨run, readFile surroundings args tree _ output given run⟩
  · intro library
    rw [UsageReport.ofFlags, Table.get?_map, Option.map_map]
    exact Option.map_id_apply
  · intro library record found
    rw [UsageReport.ofFlags, Table.get?_map] at found
    obtain ⟨exports, -, rfl⟩ := Option.map_eq_some_iff.mp found
    rfl
  · intro again others staged time later same permuted
    have ordered : ExportFlags.merge (staged.map (·.report)) =
        ExportFlags.merge ((again :: others).map (·.report)) :=
      ExportFlags.merge_congr fun report => (permuted.map (·.report)).mem_iff
    rw [ofReports, ordered, List.map_cons, same, ofReports, ofReports, List.map_append]
    exact ExportFlags.merge_ofFlags_cons _ _

/-! ## A merge of one report, which is merged with another one -/

/-- A merge over the application of the single chunk, with an output at the top. -/
def loneMergeArgs : MergeArgs :=
  ⟨⟨some ⟨"/"⟩, [loneSpec], "u"⟩, some (FileTree.pathOf ["m"])⟩

/-- A report on the library of the single chunk, which uses another export of it. -/
def otherReport : AppReport where
  app := "other"
  report := ⟨Table.singleton "library"
    ⟨Table.ofList [("other", true), ("used", false)], none⟩⟩
  sourcePath := ⟨"/other/u"⟩
  outputDir := ⟨"/other"⟩

theorem writable_loneTree (content : ByteArray) :
    (loneTree content).writable (FileTree.pathOf ["m"]) = .ok ["m"] := by
  have proper : Path.IsName "m" := ⟨by decide, by decide, by decide⟩
  have reaches : (loneTree content).Reaches (FileTree.pathOf ([] ++ ["m"])) ([] ++ ["m"]) :=
    FileTree.reaches_of_open (linkFree_loneTree content)
      (fun _ absurdity => absurd absurdity List.not_mem_nil) proper trivial (by decide)
  have vacant : FileTree.entry? (loneTree content) ["m"] = none := rfl
  rw [FileTree.writable, ← List.nil_append ["m"], reaches true, FileTree.placeAt, List.nil_append,
    vacant]
  rfl

/-- The merge writes the usage of the single chunk; read again, it is merged with the other report
in place of what it was made of. -/
theorem exists_standsFor_loneTree :
    (∀ report ∈ [loneReport loneSite (dottedDir 0)], report.Loaded) ∧
      ∃ report after, StandsFor report (ofReports "" [loneReport loneSite (dottedDir 0)])
          [loneReport loneSite (dottedDir 0)] ∧
        runMerge ⟨fun _ _ => true, "", ""⟩ loneMergeArgs (loneTree .empty) =
          (after, .ok (ofReports "" [loneReport loneSite (dottedDir 0)])) ∧
        after.readReport (FileTree.pathOf ["m"]) = .ok report ∧
        (ofReports "" [otherReport, ⟨"merged", report, FileTree.pathOf ["m"], ⟨"/"⟩⟩]).flags =
          (ofReports "" [loneReport loneSite (dottedDir 0), otherReport]).flags := by
  have apps : ∀ root, loneMergeArgs.workspace.applications root = [loneApp 0] :=
    fun root => congrArg (fun app => [app]) (application_loneSpec root)
  have loads : ∀ root, loadReports (loneTree .empty) "u"
      (loneMergeArgs.workspace.applications root) = .ok [loneReport loneSite (dottedDir 0)] := by
    intro root
    rw [apps]
    exact loadReports_loneTree (by decide)
  have loaded : ∀ report ∈ [loneReport loneSite (dottedDir 0)], report.Loaded :=
    fun _ member => .of_loadReports (loads ⟨"/"⟩) member
  obtain ⟨report, standsFor⟩ := exists_standsFor "" loaded
  obtain ⟨root, resolved⟩ : ∃ root, ProjectRoot.resolve (loneTree .empty)
      loneMergeArgs.workspace.root = .ok root := ⟨_, rfl⟩
  obtain ⟨run, readAgain⟩ := standsFor.written ⟨fun _ _ => true, "", ""⟩ loneMergeArgs
    (loneTree .empty) root _ _ rfl resolved (loads root) rfl (writable_loneTree .empty)
  refine ⟨loaded, report, _, standsFor, run, readAgain, ?_⟩
  exact standsFor.staged ⟨"merged", report, FileTree.pathOf ["m"], ⟨"/"⟩⟩ [otherReport] _ "" ""
    rfl (List.Perm.swap _ _ [])

end MergedUsage

end ChunkPrune
