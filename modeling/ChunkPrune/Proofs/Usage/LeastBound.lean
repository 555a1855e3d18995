import Mathlib.Order.Bounds.Basic
import Mathlib.Data.Fintype.Order
import ChunkPrune.Proofs.Prune.Single
import ChunkPrune.Proofs.Table.Order
import ChunkPrune.Proofs.Usage.Merged

/-!
# Merged flags are the least above the reports

Flags are ordered as tables of tables: a missing library or export is below a false flag, and a
false flag is below a true one. Merging takes the join, so it gives the least flags that are
above the flags of every report. The order of the reports and how often each of them is there
does not matter.
-/

namespace ChunkPrune

namespace UsageReport

/-- The text of a report has a value for a library. -/
def Mentions (text library : String) : Prop :=
  ∃ document libraries value, Json.Document.read? text = some document ∧
    Libraries document libraries ∧ Entries.get? library libraries = some value

theorem mentions_iff {text : String} {report : UsageReport} (read : read? text = some report)
    {library : String} :
    (report.libraries.get? library).isSome = true ↔ Mentions text library := by
  rw [read?] at read
  split at read
  next document scanned =>
    rw [Option.isSome_iff_exists]
    constructor
    · rintro ⟨record, found⟩
      obtain ⟨libraries, value, has, there, -⟩ := (get?_libraries_iff read).mp found
      exact ⟨document, libraries, value, scanned, has, there⟩
    · rintro ⟨other, libraries, value, otherScanned, has, there⟩
      rw [scanned] at otherScanned
      cases otherScanned
      exact ⟨_, (get?_libraries_iff read).mpr ⟨libraries, value, has, there, rfl⟩⟩
  · cases read

end UsageReport

namespace AppReport

/-- The report was loaded from a file with the text. -/
def LoadedFrom (report : AppReport) (text : String) : Prop :=
  ∃ (tree : FileTree) (usageFile : String) (app : Application),
    app.load? tree usageFile = some report ∧ tree.readText report.sourcePath = .ok text

def Loaded (report : AppReport) : Prop := ∃ text, report.LoadedFrom text

/-- The file of the report has a value for a library. -/
def Mentions (report : AppReport) (library : String) : Prop :=
  ∃ text, report.LoadedFrom text ∧ UsageReport.Mentions text library

/-- The file of the report has a value at a key of a library. -/
def Lists (report : AppReport) (library key : String) : Prop :=
  ∃ text value, report.LoadedFrom text ∧ UsageReport.Records text library key value

variable {report : AppReport} {library key : String}

theorem LoadedFrom.read {text : String} (loaded : report.LoadedFrom text) :
    UsageReport.read? text = some report.report := by
  obtain ⟨tree, usageFile, app, load, readText⟩ := loaded
  obtain ⟨-, -, -, other, otherText, read⟩ := Application.exists_text_of_load load
  rw [readText] at otherText
  cases otherText
  exact read

theorem Loaded.of_loadReports {tree : FileTree} {usageFile : String} {apps : List Application}
    {reports : List AppReport} (loaded : loadReports tree usageFile apps = .ok reports)
    (member : report ∈ reports) : report.Loaded := by
  obtain ⟨app, -, load⟩ := exists_load_of_loadReports loaded member
  obtain ⟨-, -, -, text, readText, -⟩ := Application.exists_text_of_load load
  exact ⟨text, tree, usageFile, app, load, readText⟩

theorem Loaded.mentions_iff (loaded : report.Loaded) :
    (report.report.libraries.get? library).isSome = true ↔ report.Mentions library := by
  constructor
  · intro found
    obtain ⟨text, source⟩ := loaded
    exact ⟨text, source, (UsageReport.mentions_iff source.read).mp found⟩
  · rintro ⟨text, source, mentions⟩
    exact (UsageReport.mentions_iff source.read).mpr mentions

theorem Loaded.lists_iff (loaded : report.Loaded) :
    (∃ used, (ExportFlags.ofReport report.report).flag? library key = some used) ↔
      key ≠ characteristicsKey ∧ report.Lists library key := by
  simp only [ExportFlags.flag?_ofReport]
  constructor
  · rintro ⟨used, found⟩
    obtain ⟨text, source⟩ := loaded
    obtain ⟨notReserved, value, records, -⟩ :=
      (UsageReport.get?_exports_iff source.read).mp found
    exact ⟨notReserved, text, value, source, records⟩
  · rintro ⟨notReserved, text, value, source, records⟩
    exact ⟨value.truthy,
      (UsageReport.get?_exports_iff source.read).mpr ⟨notReserved, value, records, rfl⟩⟩

end AppReport

namespace ExportFlags

/-- Each flag of the lower flags is there in the upper ones, and true there when it is true.
Unlike in the order of tables, a library without exports is not told from a missing one. -/
def FlagsBelow (lower upper : ExportFlags) : Prop :=
  ∀ library key used, lower.flag? library key = some used →
    ∃ other, upper.flag? library key = some other ∧ used ≤ other

theorem join_eq_sup (left right : ExportFlags) : join left right = left ⊔ right := rfl

theorem flag?_sup (left right : ExportFlags) (library key : String) :
    (left ⊔ right).flag? library key =
      Option.merge (· || ·) (left.flag? library key) (right.flag? library key) := by
  rw [← join_eq_sup, flag?_join]
  cases left.flag? library key with
  | none => cases right.flag? library key <;> rfl
  | some used => cases right.flag? library key <;> rfl

/-- Flags in the order of tables have their single flags in order as well. -/
theorem FlagsBelow.of_le {lower upper : ExportFlags} (below : lower ≤ upper) :
    FlagsBelow lower upper := by
  intro library key used found
  obtain ⟨exports, there, flag⟩ := Option.bind_eq_some_iff.mp found
  obtain ⟨others, above, exportsBelow⟩ := below library exports there
  obtain ⟨other, otherFlag, le⟩ := exportsBelow key used flag
  exact ⟨other, Option.bind_eq_some_iff.mpr ⟨others, above, otherFlag⟩, le⟩

/-! ## The bound -/

section Bound

variable {reports others : List UsageReport} {above : ExportFlags}

/-- Merged flags are below exactly what the flags of all reports are below. -/
theorem merge_le_iff : merge reports ≤ above ↔ ∀ report ∈ reports, ofReport report ≤ above := by
  have folded : ∀ (rest : List UsageReport) (flags : ExportFlags),
      rest.foldl (fun flags report => join flags (ofReport report)) flags ≤ above ↔
        flags ≤ above ∧ ∀ report ∈ rest, ofReport report ≤ above := by
    intro rest
    induction rest with
    | nil =>
        intro flags
        simp
    | cons report rest inductionHypothesis =>
        intro flags
        rw [List.foldl_cons, inductionHypothesis, join_eq_sup, sup_le_iff, and_assoc,
          List.forall_mem_cons]
  have least : (Table.empty : ExportFlags) ≤ above := bot_le
  rw [merge, folded]
  exact and_iff_right least

theorem isLUB_merge (reports : List UsageReport) :
    IsLUB {flags | ∃ report ∈ reports, ofReport report = flags} (merge reports) := by
  rw [isLUB_iff_le_iff]
  intro above
  rw [merge_le_iff]
  constructor
  · rintro below flags ⟨report, member, rfl⟩
    exact below report member
  · intro bound report member
    exact bound ⟨report, member, rfl⟩

theorem merge_append : merge (reports ++ others) = merge reports ⊔ merge others := by
  apply eq_of_forall_ge_iff
  intro above
  rw [sup_le_iff, merge_le_iff, merge_le_iff, merge_le_iff, List.forall_mem_append]

theorem merge_le_merge (included : reports ⊆ others) : merge reports ≤ merge others :=
  merge_le_iff.mpr fun _ member => merge_le_iff.mp le_rfl _ (included member)

theorem merge_congr (same : ∀ report, report ∈ reports ↔ report ∈ others) :
    merge reports = merge others :=
  le_antisymm (merge_le_merge fun report => (same report).mp)
    (merge_le_merge fun report => (same report).mpr)

/-- Also of flags that only have their single flags in order, merged ones are the least. -/
theorem flagsBelow_merge
    (bound : ∀ report ∈ reports, FlagsBelow (ofReport report) above) :
    FlagsBelow (merge reports) above := by
  intro library key used found
  cases used with
  | false =>
      obtain ⟨report, member, flag, listed⟩ := flag?_merge_isSome_iff.mp ⟨false, found⟩
      obtain ⟨other, there, -⟩ := bound report member library key flag listed
      exact ⟨other, there, Bool.false_le other⟩
  | true =>
      obtain ⟨report, member, listed⟩ := flag?_merge_iff.mp found
      exact bound report member library key true listed

theorem get?_merge_isSome_iff {library : String} :
    ((merge reports).get? library).isSome = true ↔
      ∃ report ∈ reports, (report.libraries.get? library).isSome = true := by
  have mapped : ∀ report : UsageReport, ((ofReport report).get? library).isSome =
      (report.libraries.get? library).isSome := by
    intro report
    rw [ofReport, Table.get?_map, Option.isSome_map]
  simp only [← mapped]
  refine merge_iff (fun flags => (flags.get? library).isSome = true) ?_ ?_ reports
  · simp
  · intro left right
    rw [join, Table.get?_unionWith]
    cases left.get? library with
    | none => cases right.get? library <;> simp
    | some exports => cases right.get? library <;> simp

end Bound

end ExportFlags

/-! ## What merging makes of reports -/

section Loaded

variable {reports : List AppReport} {mergeTime library key : String}

theorem MergedUsage.isSome_flag?_ofReports_iff (loaded : ∀ report ∈ reports, report.Loaded) :
    ((ofReports mergeTime reports).flags.flag? library key).isSome = true ↔
      key ≠ characteristicsKey ∧ ∃ report ∈ reports, report.Lists library key := by
  rw [ofReports, Option.isSome_iff_exists, ExportFlags.flag?_merge_isSome_iff]
  constructor
  · rintro ⟨_, member, found⟩
    obtain ⟨report, reportMember, rfl⟩ := List.mem_map.mp member
    obtain ⟨notReserved, lists⟩ := (loaded report reportMember).lists_iff.mp found
    exact ⟨notReserved, report, reportMember, lists⟩
  · rintro ⟨notReserved, report, member, lists⟩
    exact ⟨report.report, List.mem_map_of_mem member,
      (loaded report member).lists_iff.mpr ⟨notReserved, lists⟩⟩

/-- The reserved key is never taken for an export. -/
theorem MergedUsage.flag?_ofReports_reserved (loaded : ∀ report ∈ reports, report.Loaded)
    (library : String) :
    (ofReports mergeTime reports).flags.flag? library characteristicsKey = none := by
  rw [← Option.not_isSome_iff_eq_none]
  intro reserved
  exact ((isSome_flag?_ofReports_iff loaded).mp reserved).1 rfl

end Loaded

/-- What holds when `merged` takes each list of reports to the least flags above them. -/
structure MergedUsage.TakesLeast (merged : List AppReport → MergedUsage)
    (reports : List AppReport) : Prop where
  libraries : ∀ library, ((merged reports).flags.get? library).isSome = true ↔
    ∃ report ∈ reports, report.Mentions library
  exports : ∀ library key, ((merged reports).flags.flag? library key).isSome = true ↔
    key ≠ characteristicsKey ∧ ∃ report ∈ reports, report.Lists library key
  noReserved : ∀ library, (merged reports).flags.flag? library characteristicsKey = none
  isLUB : IsLUB {flags | ∃ report ∈ reports, ExportFlags.ofReport report.report = flags}
    (merged reports).flags
  flagsBelow : ∀ above : ExportFlags,
    (∀ report ∈ reports, (ExportFlags.ofReport report.report).FlagsBelow above) →
    (merged reports).flags.FlagsBelow above
  append : ∀ others, (merged (reports ++ others)).flags =
    (merged reports).flags ⊔ (merged others).flags
  flag_append : ∀ others library key, (merged (reports ++ others)).flags.flag? library key =
    Option.merge (· || ·) ((merged reports).flags.flag? library key)
      ((merged others).flags.flag? library key)
  congr : ∀ others, (∀ report, report ∈ others ↔ report ∈ reports) →
    (merged others).flags = (merged reports).flags
  keepsLibraries : ∀ more, reports ⊆ more → ∀ library,
    ((merged reports).flags.get? library).isSome = true →
    ((merged more).flags.get? library).isSome = true
  keepsFlags : ∀ more, reports ⊆ more → (merged reports).flags.FlagsBelow (merged more).flags

/-- Merging loaded reports takes the least flags above them, whatever the time of each merge. -/
theorem MergedUsage.ofReports_takesLeast (time : List AppReport → String)
    {reports : List AppReport} (loaded : ∀ report ∈ reports, report.Loaded) :
    TakesLeast (fun reports => ofReports (time reports) reports) reports := by
  have monotone : ∀ more, reports ⊆ more → ExportFlags.merge (reports.map (·.report)) ≤
      ExportFlags.merge (more.map (·.report)) := fun more included =>
    ExportFlags.merge_le_merge (List.map_subset _ included)
  constructor
  case libraries =>
    intro library
    rw [ofReports, ExportFlags.get?_merge_isSome_iff]
    constructor
    · rintro ⟨_, member, found⟩
      obtain ⟨report, reportMember, rfl⟩ := List.mem_map.mp member
      exact ⟨report, reportMember, (loaded report reportMember).mentions_iff.mp found⟩
    · rintro ⟨report, member, mentions⟩
      exact ⟨report.report, List.mem_map_of_mem member,
        (loaded report member).mentions_iff.mpr mentions⟩
  case exports => exact fun library key => isSome_flag?_ofReports_iff loaded
  case noReserved => exact flag?_ofReports_reserved loaded
  case isLUB =>
    have bound := ExportFlags.isLUB_merge (reports.map (·.report))
    simp only [List.mem_map, exists_exists_and_eq_and] at bound
    exact bound
  case flagsBelow =>
    intro above bound
    exact ExportFlags.flagsBelow_merge (List.forall_mem_map.mpr bound)
  case append =>
    intro others
    rw [ofReports, List.map_append]
    exact ExportFlags.merge_append
  case flag_append =>
    intro others library key
    rw [ofReports, List.map_append, ExportFlags.merge_append]
    exact ExportFlags.flag?_sup _ _ library key
  case congr =>
    intro others same
    apply ExportFlags.merge_congr
    intro report
    simp only [List.mem_map, same]
  case keepsLibraries =>
    intro more included library found
    obtain ⟨exports, there⟩ := Option.isSome_iff_exists.mp found
    obtain ⟨others, above, -⟩ := monotone more included library exports there
    exact Option.isSome_iff_exists.mpr ⟨others, above⟩
  case keepsFlags =>
    intro more included
    exact .of_le (monotone more included)

/-- The report of the tree with a single chunk, loaded through two paths. -/
theorem MergedUsage.ofReports_takesLeast_loneTree :
    (∀ report ∈ [loneReport loneSite (dottedDir 0), loneReport loneSite (dottedDir 1)],
        report.Loaded) ∧
      TakesLeast (fun reports => ofReports "" reports)
        [loneReport loneSite (dottedDir 0), loneReport loneSite (dottedDir 1)] := by
  have loaded : ∀ count, 2 * count + 7 < FileTree.pathBound →
      (loneReport loneSite (dottedDir count)).Loaded := by
    intro count short
    have read : loadReports (loneTree .empty) "u" [loneApp count] =
        .ok [loneReport loneSite (dottedDir count)] := loadReports_loneTree short
    exact .of_loadReports read (List.mem_singleton_self _)
  have both : ∀ report ∈ [loneReport loneSite (dottedDir 0), loneReport loneSite (dottedDir 1)],
      report.Loaded := by
    intro report member
    rcases List.mem_pair.mp member with rfl | rfl
    · exact loaded 0 (by decide)
    · exact loaded 1 (by decide)
  exact ⟨both, ofReports_takesLeast (fun _ => "") both⟩

end ChunkPrune
