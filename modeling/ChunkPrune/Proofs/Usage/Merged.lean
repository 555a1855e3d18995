import ChunkPrune.Usage.Merge
import ChunkPrune.Proofs.Usage.Recorded

/-!
# Flags of merged usage

Merged usage has a flag of an export as soon as one report has one, and the flag is true as
soon as one report has a true one.
-/

namespace ChunkPrune

namespace ExportFlags

/-- The flag of an export of a library. -/
def flag? (flags : ExportFlags) (library key : String) : Option Bool :=
  (flags.get? library).bind fun exports => exports.get? key

theorem flag?_join (left right : ExportFlags) (library key : String) :
    (join left right).flag? library key =
      match left.flag? library key, right.flag? library key with
      | some used, some other => some (used || other)
      | some used, none => some used
      | none, other => other := by
  rw [flag?, flag?, flag?, join, Table.get?_unionWith]
  cases left.get? library with
  | none =>
      cases right.get? library with
      | none => rfl
      | some others => rfl
  | some exports =>
      cases right.get? library with
      | none =>
          simp only [Option.bind_some, Option.bind_none]
          cases exports.get? key <;> rfl
      | some others =>
          simp only [Option.bind_some]
          rw [Table.get?_unionWith]
          cases exports.get? key with
          | none => cases others.get? key <;> rfl
          | some used => cases others.get? key <;> rfl

theorem flag?_ofReport {report : UsageReport} {library key : String} {used : Bool} :
    (ofReport report).flag? library key = some used ↔
      ∃ record, report.libraries.get? library = some record ∧
        record.exports.get? key = some used := by
  rw [flag?, ofReport, Table.get?_map, Option.bind_eq_some_iff]
  constructor
  · rintro ⟨exports, mapped, found⟩
    obtain ⟨record, there, rfl⟩ := Option.map_eq_some_iff.mp mapped
    exact ⟨record, there, found⟩
  · rintro ⟨record, there, found⟩
    exact ⟨record.exports, Option.map_eq_some_iff.mpr ⟨record, there, rfl⟩, found⟩

/-- A property that goes through joins holds of merged flags when it holds of the flags of
some report. -/
theorem merge_iff (holds : ExportFlags → Prop) (notEmpty : ¬ holds Table.empty)
    (joined : ∀ left right, holds (join left right) ↔ holds left ∨ holds right)
    (reports : List UsageReport) :
    holds (merge reports) ↔ ∃ report ∈ reports, holds (ofReport report) := by
  have folded : ∀ (rest : List UsageReport) (flags : ExportFlags),
      holds (rest.foldl (fun flags report => join flags (ofReport report)) flags) ↔
        holds flags ∨ ∃ report ∈ rest, holds (ofReport report) := by
    intro rest
    induction rest with
    | nil =>
        intro flags
        simp
    | cons report rest inductionHypothesis =>
        intro flags
        rw [List.foldl_cons, inductionHypothesis, joined, or_assoc]
        simp
  rw [merge, folded]
  constructor
  · rintro (absurdity | found)
    · exact absurd absurdity notEmpty
    · exact found
  · exact Or.inr

theorem flag?_merge_isSome_iff {reports : List UsageReport} {library key : String} :
    (∃ used, (merge reports).flag? library key = some used) ↔
      ∃ report ∈ reports, ∃ used, (ofReport report).flag? library key = some used := by
  refine merge_iff (fun flags => ∃ used, flags.flag? library key = some used) ?_ ?_ reports
  · rintro ⟨used, found⟩
    cases found
  · intro left right
    rw [flag?_join]
    cases left.flag? library key with
    | none => simp
    | some used => cases right.flag? library key <;> simp

theorem flag?_merge_iff {reports : List UsageReport} {library key : String} :
    (merge reports).flag? library key = some true ↔
      ∃ report ∈ reports, (ofReport report).flag? library key = some true := by
  refine merge_iff (fun flags => flags.flag? library key = some true) ?_ ?_ reports
  · intro found
    cases found
  · intro left right
    rw [flag?_join]
    cases left.flag? library key with
    | none => simp
    | some used => cases right.flag? library key <;> simp

end ExportFlags

section Loaded

variable {tree : FileTree} {usageFile : String} {apps : List Application}
  {reports : List AppReport}

theorem MergedUsage.get?_keepFlags (merged : MergedUsage) (library key : String) :
    (merged.keepFlags library).get? key = merged.flags.flag? library key := by
  rw [keepFlags, flagsOf?, ExportFlags.flag?]
  cases merged.flags.get? library with
  | none => rfl
  | some exports => rfl

/-- An export has a flag when some loaded report has a value for it. -/
theorem keepFlags_isSome_iff (loaded : loadReports tree usageFile apps = .ok reports)
    (mergeTime library key : String) :
    (∃ used, ((MergedUsage.ofReports mergeTime reports).keepFlags library).get? key =
        some used) ↔
      key ≠ characteristicsKey ∧
        ∃ report ∈ reports, ∃ value, report.Records tree library key value := by
  simp only [MergedUsage.get?_keepFlags, MergedUsage.ofReports]
  rw [ExportFlags.flag?_merge_isSome_iff]
  constructor
  · rintro ⟨_, member, used, found⟩
    obtain ⟨report, reportMember, rfl⟩ := List.mem_map.mp member
    obtain ⟨notReserved, value, records, -⟩ :=
      (get?_exports_iff_records loaded reportMember).mp (ExportFlags.flag?_ofReport.mp found)
    exact ⟨notReserved, report, reportMember, value, records⟩
  · rintro ⟨notReserved, report, reportMember, value, records⟩
    refine ⟨report.report, List.mem_map_of_mem reportMember, value.truthy, ?_⟩
    exact ExportFlags.flag?_ofReport.mpr
      ((get?_exports_iff_records loaded reportMember).mpr ⟨notReserved, value, records, rfl⟩)

/-- An export is needed when some loaded report has a value for it that counts as true. -/
theorem keepFlags_iff (loaded : loadReports tree usageFile apps = .ok reports)
    (mergeTime library key : String) :
    ((MergedUsage.ofReports mergeTime reports).keepFlags library).get? key = some true ↔
      key ≠ characteristicsKey ∧ ∃ report ∈ reports, ∃ value,
        report.Records tree library key value ∧ value.CountsAsTrue := by
  simp only [MergedUsage.get?_keepFlags, MergedUsage.ofReports]
  rw [ExportFlags.flag?_merge_iff]
  constructor
  · rintro ⟨_, member, found⟩
    obtain ⟨report, reportMember, rfl⟩ := List.mem_map.mp member
    obtain ⟨notReserved, value, records, truthy⟩ :=
      (get?_exports_iff_records loaded reportMember).mp (ExportFlags.flag?_ofReport.mp found)
    exact ⟨notReserved, report, reportMember, value, records, Json.truthy_iff.mp truthy⟩
  · rintro ⟨notReserved, report, reportMember, value, records, counts⟩
    refine ⟨report.report, List.mem_map_of_mem reportMember, ?_⟩
    exact ExportFlags.flag?_ofReport.mpr ((get?_exports_iff_records loaded reportMember).mpr
      ⟨notReserved, value, records, Json.truthy_iff.mpr counts⟩)

end Loaded

end ChunkPrune
