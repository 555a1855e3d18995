import ChunkPrune.Proofs.Engine.Config
import ChunkPrune.Proofs.Prune.Calls
import ChunkPrune.Proofs.Prune.Single
import ChunkPrune.Proofs.Run.Course
import ChunkPrune.Proofs.Usage.Merged

/-!
# No call gives up what is used

Whatever the reports record, each call of the engine is about one library: it carries a flag of
every export that some report mentions, true as soon as one report uses the export, and the
characteristics that the application of the chunk recorded itself.
-/

namespace ChunkPrune

/-- Characteristics have an entry module: a text that is not empty, or a number that is not
zero. -/
def NamesEntry (fields : List (String × Json)) : Prop :=
  (∃ id, Entries.get? "entry_module_id" fields = some (.string id) ∧ id ≠ "") ∨
    ∃ id, Entries.get? "entry_module_id" fields = some (.number id) ∧
      (Json.number id).CountsAsTrue

/-- The members of a configuration for the library of a chunk, told by what reports record. -/
structure KeepsUsed (tree : FileTree) (reports : List AppReport) (chunk : Chunk)
    (members : List (String × Json)) : Prop where
  ordered : Entries.Ordered members
  keys : ∀ key, (∃ value, Entries.get? key members = some value) ↔ key = characteristicsKey ∨
    ∃ report ∈ reports, ∃ value, report.Records tree chunk.library key value
  flags : ∀ key, key ≠ characteristicsKey → ∀ value, Entries.get? key members = some value →
    value = .bool true ∨ value = .bool false
  used : ∀ key, key ≠ characteristicsKey → (Entries.get? key members = some (.bool true) ↔
    ∃ report ∈ reports, ∃ value, report.Records tree chunk.library key value ∧
      value.CountsAsTrue)
  flagged : ∃ key, key ≠ characteristicsKey ∧ ∃ value, Entries.get? key members = some value
  own : ∃ report ∈ reports, ∃ record, Chunk.From tree report record chunk ∧ ∃ fields,
    report.Records tree chunk.library characteristicsKey (.object fields) ∧
      Entries.get? characteristicsKey members = some (.object fields) ∧ NamesEntry fields

/-- Calls belong to different located chunks, each with a configuration for the library of its
chunk that keeps what is used. -/
def CallsKeepUsed (tree : FileTree) (reports : List AppReport) (calls : List EngineCall) : Prop :=
  ∃ asked : List Nat, asked.Nodup ∧ List.Forall₂ (fun number call => ∃ chunk members,
    (Chunk.locate tree reports)[number]? = some chunk ∧ KeepsUsed tree reports chunk members ∧
    call.config =
      (Json.object [(librariesKey, .object [(chunk.library, .object members)])]).compact)
    asked calls

theorem Characteristics.namesEntry {characteristics : Characteristics}
    (named : characteristics.entryModule?.isNone = false) : NamesEntry characteristics.members := by
  rw [Characteristics.entryModule?] at named
  split at named
  next id found =>
    split at named
    · cases named
    next nonempty => exact Or.inl ⟨id, found, nonempty⟩
  next id found =>
    split at named
    next truthy => exact Or.inr ⟨id, found, Json.truthy_iff.mp truthy⟩
    · cases named
  · cases named

/-! ## The members of a configuration -/

theorem exists_get?_of_not_isEmpty {flags : Table String Bool} (nonempty : flags.isEmpty = false) :
    ∃ key used, flags.get? key = some used := by
  obtain ⟨entries, ordered⟩ := flags
  cases entries with
  | nil => cases nonempty
  | cons entry rest =>
      have member : (entry.1, entry.2) ∈ entry :: rest := List.mem_cons_self
      exact ⟨entry.1, entry.2, Entries.get?_of_mem ordered member⟩

section Loaded

variable {tree : FileTree} {usageFile : String} {apps : List Application}
  {reports : List AppReport}

/-- A configuration has the reserved key and the exports that some report mentions. -/
theorem exists_get?_configMembers_iff (loaded : loadReports tree usageFile apps = .ok reports)
    (mergeTime library : String) (characteristics : Characteristics) (key : String) :
    (∃ value, (configMembers ((MergedUsage.ofReports mergeTime reports).keepFlags library)
        characteristics).get? key = some value) ↔
      key = characteristicsKey ∨
        ∃ report ∈ reports, ∃ value, report.Records tree library key value := by
  by_cases isReserved : key = characteristicsKey
  · rw [isReserved, get?_configMembers_key]
    exact ⟨fun _ => Or.inl rfl, fun _ => ⟨_, rfl⟩⟩
  · have mentioned := keepFlags_isSome_iff loaded mergeTime library key
    constructor
    · intro present
      obtain ⟨value, found⟩ := present
      obtain ⟨used, flag, -⟩ := (get?_configMembers_eq_some isReserved).mp found
      exact Or.inr (mentioned.mp ⟨used, flag⟩).2
    · intro recorded
      obtain ⟨used, flag⟩ := mentioned.mpr ⟨isReserved, recorded.resolve_left isReserved⟩
      exact ⟨.bool used, (get?_configMembers_eq_some isReserved).mpr ⟨used, flag, rfl⟩⟩

/-- A flag of a configuration is true as soon as one report uses the export. -/
theorem get?_configMembers_true_iff (loaded : loadReports tree usageFile apps = .ok reports)
    (mergeTime library : String) (characteristics : Characteristics) {key : String}
    (notReserved : key ≠ characteristicsKey) :
    (configMembers ((MergedUsage.ofReports mergeTime reports).keepFlags library)
        characteristics).get? key = some (.bool true) ↔
      ∃ report ∈ reports, ∃ value, report.Records tree library key value ∧
        value.CountsAsTrue := by
  have needed := keepFlags_iff loaded mergeTime library key
  rw [get?_configMembers_eq_some notReserved]
  constructor
  · intro found
    obtain ⟨used, flag, same⟩ := found
    cases same
    exact (needed.mp flag).2
  · intro counts
    exact ⟨true, needed.mpr ⟨notReserved, counts⟩, rfl⟩

/-- The configuration for a located chunk that is asked about. -/
theorem keepsUsed_configMembers (loaded : loadReports tree usageFile apps = .ok reports)
    (mergeTime : String) {chunk : Chunk} (member : chunk ∈ Chunk.locate tree reports)
    {call : EngineCall} (asked : chunk.AskedBy (.ofReports mergeTime reports) call) :
    KeepsUsed tree reports chunk (configMembers
      ((MergedUsage.ofReports mergeTime reports).keepFlags chunk.library)
      chunk.characteristics).entries := by
  refine ⟨Table.ordered _, ?_, ?_, ?_, ?_, ?_⟩
  · exact exists_get?_configMembers_iff loaded mergeTime chunk.library chunk.characteristics
  · intro key notReserved value found
    obtain ⟨used, -, rfl⟩ := (get?_configMembers_eq_some notReserved).mp found
    cases used with
    | true => exact Or.inl rfl
    | false => exact Or.inr rfl
  · intro key notReserved
    exact get?_configMembers_true_iff loaded mergeTime chunk.library chunk.characteristics
      notReserved
  · obtain ⟨key, used, flag⟩ := exists_get?_of_not_isEmpty asked.flagged
    have notReserved : key ≠ characteristicsKey :=
      ((keepFlags_isSome_iff loaded mergeTime chunk.library key).mp ⟨used, flag⟩).1
    exact ⟨key, notReserved, .bool used,
      (get?_configMembers_eq_some notReserved).mpr ⟨used, flag, rfl⟩⟩
  · obtain ⟨report, reportMember, record, source⟩ := Chunk.from_of_mem_locate member
    have found := Table.mem_entries_iff.mp source.library
    have records := records_characteristics loaded reportMember found source.characteristics
    exact ⟨report, reportMember, record, source, chunk.characteristics.members, records,
      get?_configMembers_key _ chunk.characteristics, Characteristics.namesEntry asked.entered⟩

theorem Pool.Steps.keepUsed (loaded : loadReports tree usageFile apps = .ok reports)
    {engines : Engine → Prop} {mergeTime : String} {settings : PruneSettings} {pool : Pool}
    (steps : Pool.Steps engines (.ofReports mergeTime reports) settings
      (.start (.ofTree tree) (Chunk.locate tree reports)) pool) :
    CallsKeepUsed tree reports pool.bench.calls := by
  obtain ⟨asked, distinct, calls⟩ := steps.calls
  refine ⟨asked, distinct, calls.imp ?_⟩
  intro number call belongs
  obtain ⟨chunk, found, askedBy⟩ := belongs
  have member := List.mem_of_getElem? found
  refine ⟨chunk, _, found, keepsUsed_configMembers loaded mergeTime member askedBy, ?_⟩
  rw [askedBy.config, engineConfig_eq]

/-- The calls of a run whose reports are loaded are those of a batch. -/
theorem exists_steps_runOptimize {args : OptimizeArgs} {root : Path}
    (surroundings : Surroundings) (engine : Engine)
    (resolved : ProjectRoot.resolve tree args.workspace.root = .ok root)
    (loaded : loadReports tree args.workspace.usageFile (args.workspace.applications root) =
      .ok reports) :
    ∃ (settings : PruneSettings) (pool : Pool),
      Pool.Steps settings.engine.Only (.ofReports surroundings.mergeTime reports) settings
          (.start (.ofTree tree) (Chunk.locate tree reports)) pool ∧
        (runOptimize surroundings engine args tree).1.calls = pool.bench.calls := by
  have allowed : engine.Only (args.settings surroundings engine .whole).engine := rfl
  obtain ⟨pool, steps, -, bench, -⟩ := Pool.exists_steps_pruneChunks allowed
    (.ofReports surroundings.mergeTime reports) (.ofTree tree) (Chunk.locate tree reports)
  refine ⟨args.settings surroundings engine .whole, pool, steps, ?_⟩
  rw [runOptimize_of_loaded resolved loaded, OptimizeArgs.conclude_calls, bench]

end Loaded

/-- At every point of a batch over loaded reports, with any engines, and at the end of every
run of the program, the calls belong to different located chunks and keep what is used. -/
theorem calls_keepUsed (tree : FileTree) :
    (∀ (usageFile mergeTime : String) (apps : List Application) (reports : List AppReport)
      (settings : PruneSettings) (pool : Pool),
      loadReports tree usageFile apps = .ok reports →
      Pool.Steps Engine.Any (.ofReports mergeTime reports) settings
        (.start (.ofTree tree) (Chunk.locate tree reports)) pool →
      CallsKeepUsed tree reports pool.bench.calls) ∧
    ∀ (surroundings : Surroundings) (engine : Engine) (args : OptimizeArgs),
      (runOptimize surroundings engine args tree).1.calls = [] ∨
      ∃ root reports, ProjectRoot.resolve tree args.workspace.root = .ok root ∧
        loadReports tree args.workspace.usageFile (args.workspace.applications root) =
          .ok reports ∧
        CallsKeepUsed tree reports (runOptimize surroundings engine args tree).1.calls := by
  constructor
  · intro usageFile mergeTime apps reports settings pool loaded steps
    exact steps.keepUsed loaded
  · intro surroundings engine args
    cases resolved : ProjectRoot.resolve tree args.workspace.root with
    | error failure =>
        apply Or.inl
        simp only [runOptimize, resolved]
        rfl
    | ok root =>
        cases loaded : loadReports tree args.workspace.usageFile
            (args.workspace.applications root) with
        | error failure =>
            apply Or.inl
            simp only [runOptimize, resolved, loaded]
            rfl
        | ok reports =>
            obtain ⟨settings, pool, steps, calls⟩ :=
              exists_steps_runOptimize surroundings engine resolved loaded
            refine Or.inr ⟨root, reports, rfl, loaded, ?_⟩
            rw [calls]
            exact steps.keepUsed loaded

/-- In the tree with a single chunk, a batch gets to a call. -/
theorem calls_keepUsed_loneTree :
    ∃ pool, loadReports (loneTree "a".toUTF8) "u" [loneApp 0] =
        .ok [loneReport loneSite (dottedDir 0)] ∧
      Pool.Steps Engine.Any (.ofReports "" [loneReport loneSite (dottedDir 0)]) steadySettings
        (.start (.ofTree (loneTree "a".toUTF8))
          (Chunk.locate (loneTree "a".toUTF8) [loneReport loneSite (dottedDir 0)])) pool ∧
      pool.bench.calls ≠ [] ∧
      CallsKeepUsed (loneTree "a".toUTF8) [loneReport loneSite (dottedDir 0)]
        pool.bench.calls := by
  have linkFree := linkFree_loneTree "a".toUTF8
  have holds := holds_loneTree "a".toUTF8
  have short : 2 * 0 + 7 < FileTree.pathBound := by decide
  have loaded : loadReports (loneTree "a".toUTF8) "u" [loneApp 0] =
      .ok [loneReport loneSite (dottedDir 0)] := loadReports_loneTree short
  have enters : (loneTree "a".toUTF8).Enters (dottedDir 0) := enters_dottedDir rfl (by decide)
  have located := locate_loneReport linkFree holds (by decide) enters (location_dottedDir 0)
  have begun := begin_loneChunk (keepFlags_loneReport loneSite (dottedDir 0)) steadySettings
    loneSite
  have read : (loneTree "a".toUTF8).readText (loneChunk loneSite).path = .ok "a" := by
    rw [loneChunk, (holds.reaches linkFree).readText holds.chunk,
      Text.fromUTF8?_eq_some_iff.mpr rfl]
  obtain ⟨pool, steps, calls⟩ := Pool.exists_steps_call begun read
  have anySteps : Pool.Steps Engine.Any _ steadySettings _ pool := steps.mono fun _ _ => trivial
  rw [← located] at anySteps
  refine ⟨pool, loaded, anySteps, ?_, (calls_keepUsed (loneTree "a".toUTF8)).1 "u" ""
    [loneApp 0] _ steadySettings pool loaded anySteps⟩
  rw [calls]
  exact List.cons_ne_nil _ _

end ChunkPrune
