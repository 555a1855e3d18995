import ChunkPrune.Proofs.FileTree.Leads
import ChunkPrune.Proofs.Prune.Single

/-!
# Backups hold the pristine chunk

A chunk that is not empty has no backup, or one with the content that the chunk had before it
was pruned for the first time. This holds through any history of batches. For an empty chunk
it does not: its backup is empty as well, and an empty backup gives way to the next text that
is read from the chunk.
-/

namespace ChunkPrune

namespace Slot

/-- The chunk is as it was, or its backup is the chunk as it was. -/
def Pristine (content : ByteArray) (slot : Slot) : Prop :=
  slot.backup = none ∧ slot.chunk = content ∨ slot.backup = some (.file content)

variable {content : ByteArray} {slot : Slot} {site : Site}

/-- A backup that is not empty stays. -/
theorem publish_of_backup (nonempty : content.size ≠ 0)
    (there : slot.backup = some (.file content)) (text : String) (staged : ByteArray) :
    (slot.publish site text staged).1 = slot := by
  rw [publish, backupPlace]
  cases refused : FileTree.refusal? site.directory site.backupName with
  | some cause => rfl
  | none =>
      simp only [there, inspect, backupPlace, refused]
      rw [if_neg fun empty => nonempty empty.1]

theorem publish_of_none (vacant : slot.backup = none) (text : String) (staged : ByteArray) :
    slot.publish site text staged =
      match FileTree.refusal? site.directory site.backupName with
      | some cause => (slot, .error (.createBackup (Chunk.backupPath site.path) cause))
      | none => ({ slot with backup := some (.file staged) }, .ok true) := by
  rw [publish, backupPlace]
  cases FileTree.refusal? site.directory site.backupName with
  | some cause => rfl
  | none => simp only [vacant]

theorem publish_of_refused {cause : OsError}
    (refused : FileTree.refusal? site.directory site.backupName = some cause) (text : String)
    (staged : ByteArray) :
    slot.publish site text staged =
      (slot, .error (.createBackup (Chunk.backupPath site.path) cause)) := by
  rw [publish, backupPlace, refused]

theorem overwrite_backup (job : PruneJob) (draft : Draft) (published : Slot × BackupResult) :
    (overwrite job draft published).1.backup = published.1.backup := by
  obtain ⟨slot, result⟩ := published
  cases result <;> rfl

theorem conclude_pristine (nonempty : content.size ≠ 0) (pristine : slot.Pristine content)
    {job : PruneJob} {source : String} (read : slot.chunk = source.toUTF8)
    (answer : Except Failure String) :
    (slot.conclude job site (job.verdict source answer)).1.Pristine content := by
  rcases job.verdict_cases source answer with ⟨after, prune, worth⟩ | ⟨cause, reason, worth⟩
  · rw [worth, conclude]
    rcases pristine with ⟨vacant, chunk⟩ | there
    · rw [publish_of_none vacant, ← read, chunk]
      cases FileTree.refusal? site.directory site.backupName with
      | some cause => exact Or.inl ⟨vacant, chunk⟩
      | none => exact Or.inr rfl
    · apply Or.inr
      rw [overwrite_backup, publish_of_backup nonempty there, there]
  · rw [worth]
    exact pristine

/-- Where no backup can have its name, nothing is overwritten. -/
theorem prune_of_refused {cause : OsError}
    (refused : FileTree.refusal? site.directory site.backupName = some cause) (engine : Engine)
    (merged : MergedUsage) (settings : PruneSettings) (chunk : Chunk) :
    (slot.prune engine merged settings site chunk).1 = slot := by
  have kept : ∀ (job : PruneJob) (worth : Except Outcome Draft),
      (slot.conclude job site worth).1 = slot := by
    intro job worth
    cases worth with
    | error outcome => rfl
    | ok draft =>
        rw [conclude, publish_of_refused refused]
        rfl
  rcases slot.prune_eq_conclude_or_skip engine merged settings site chunk with
    ⟨job, -, source, answer, -, concluded⟩ | ⟨cause, reason, passed⟩
  · rw [concluded, kept]
  · rw [passed]

theorem prune_pristine (nonempty : content.size ≠ 0) (pristine : slot.Pristine content)
    (engine : Engine) (merged : MergedUsage) (settings : PruneSettings) (chunk : Chunk) :
    (slot.prune engine merged settings site chunk).1.Pristine content := by
  rcases slot.prune_eq_conclude_or_skip engine merged settings site chunk with
    ⟨job, -, source, answer, read, concluded⟩ | ⟨cause, reason, passed⟩
  · rw [concluded]
    exact conclude_pristine nonempty pristine read answer
  · rw [passed]
    exact pristine

theorem PrunesGroup.of_refused {engines : Engine → Prop} {merged : MergedUsage}
    {settings : PruneSettings} {after : Slot} {group : List NumberedChunk}
    {outcomes : List NumberedOutcome} {cause : OsError}
    (refused : FileTree.refusal? site.directory site.backupName = some cause)
    (prunes : slot.PrunesGroup engines merged settings site group after outcomes) :
    after = slot := by
  induction prunes with
  | nil slot => rfl
  | cons engine allowed others inductionHypothesis =>
      rw [inductionHypothesis, prune_of_refused refused]

theorem PrunesGroup.pristine {engines : Engine → Prop} {merged : MergedUsage}
    {settings : PruneSettings} {after : Slot} {group : List NumberedChunk}
    {outcomes : List NumberedOutcome} (nonempty : content.size ≠ 0)
    (prunes : slot.PrunesGroup engines merged settings site group after outcomes)
    (pristine : slot.Pristine content) : after.Pristine content := by
  induction prunes with
  | nil slot => exact pristine
  | cons engine allowed others inductionHypothesis =>
      exact inductionHypothesis (prune_pristine nonempty pristine engine merged settings _)

end Slot

/-! ## Histories of batches -/

/-- A batch over chunks that were located for absolute output directories, at any time. -/
def BatchOf (tree after : FileTree) : Prop :=
  ∃ (located : FileTree) (reports : List AppReport) (merged : MergedUsage)
    (settings : PruneSettings) (pool : Pool),
    (∀ report ∈ reports, report.outputDir.isAbsolute = true) ∧
      Pool.Steps Engine.Any merged settings
        (.start (.ofTree tree) (Chunk.locate located reports)) pool ∧
      pool.Finished ∧ pool.bench.tree = after

/-- Batches one after another. -/
abbrev History : FileTree → FileTree → Prop := Relation.ReflTransGen BatchOf

/-- The batches of the program are among these. -/
theorem batchOf_pruneChunks (tree located : FileTree) (reports : List AppReport)
    (absolute : ∀ report ∈ reports, report.outputDir.isAbsolute = true) (merged : MergedUsage)
    (settings : PruneSettings) :
    BatchOf tree
      (pruneChunks merged settings (.ofTree tree) (Chunk.locate located reports)).1.tree := by
  have allowed : Engine.Any settings.engine := trivial
  obtain ⟨pool, steps, finished, bench, -⟩ := Pool.exists_steps_pruneChunks allowed merged
    (.ofTree tree) (Chunk.locate located reports)
  exact ⟨located, reports, merged, settings, pool, absolute, steps, finished,
    congrArg Workbench.tree bench⟩

variable {tree after : FileTree}

/-- A finished batch over chunks that were located for absolute output directories has pruned, at
each site, the chunks with its path. -/
theorem Pool.Steps.prunesGroup_of_located {engines : Engine → Prop} {located : FileTree}
    {reports : List AppReport} {merged : MergedUsage} {settings : PruneSettings} {pool : Pool}
    (absolute : ∀ report ∈ reports, report.outputDir.isAbsolute = true)
    (steps : Pool.Steps engines merged settings
      (.start (.ofTree tree) (Chunk.locate located reports)) pool)
    (finished : pool.Finished) (linkFree : tree.LinkFree) :
    pool.bench.tree.LinkFree ∧ ∀ {site : Site} {before : Slot}, tree.Holds site before →
      ∃ slot outcomes, pool.bench.tree.Holds site slot ∧
        before.PrunesGroup engines merged settings site
          (atPath (numbered (Chunk.locate located reports)) site.path) slot outcomes := by
  have sited : ∀ chunk ∈ Chunk.locate located reports, ∃ site : Site, chunk.path = site.path := by
    intro chunk member
    obtain ⟨report, reportMember, record, source⟩ := Chunk.from_of_mem_locate member
    obtain ⟨site, place, -⟩ := source.exists_site (absolute report reportMember)
    exact ⟨site, place⟩
  obtain ⟨plan, covers, invariant⟩ := steps.exists_invariant linkFree sited
  exact ⟨invariant.linkFree, fun holds => steps.prunesGroup linkFree sited finished holds⟩

theorem BatchOf.prunesGroup (batch : BatchOf tree after) (linkFree : tree.LinkFree) :
    after.LinkFree ∧ ∀ {site : Site} {before : Slot}, tree.Holds site before →
      ∃ merged settings group slot outcomes, after.Holds site slot ∧
        before.PrunesGroup Engine.Any merged settings site group slot outcomes := by
  obtain ⟨located, reports, merged, settings, pool, absolute, steps, finished, rfl⟩ := batch
  obtain ⟨afterLinkFree, prunes⟩ := steps.prunesGroup_of_located absolute finished linkFree
  refine ⟨afterLinkFree, fun holds => ?_⟩
  obtain ⟨slot, outcomes, ended, prunes⟩ := prunes holds
  exact ⟨merged, settings, _, slot, outcomes, ended, prunes⟩

theorem History.holds {site : Site} {slot : Slot} (history : History tree after)
    (linkFree : tree.LinkFree) (holds : tree.Holds site slot) :
    after.LinkFree ∧ ∃ slot', after.Holds site slot' := by
  induction history with
  | refl => exact ⟨linkFree, slot, holds⟩
  | tail _ batch inductionHypothesis =>
      obtain ⟨middleLinkFree, middle, middleHolds⟩ := inductionHypothesis
      obtain ⟨afterLinkFree, prunes⟩ := batch.prunesGroup middleLinkFree
      obtain ⟨merged, settings, group, last, outcomes, lastHolds, -⟩ := prunes middleHolds
      exact ⟨afterLinkFree, last, lastHolds⟩

theorem History.pristine {site : Site} {slot : Slot} (history : History tree after)
    (linkFree : tree.LinkFree) (holds : tree.Holds site slot) (vacant : slot.backup = none)
    (nonempty : slot.chunk.size ≠ 0) :
    after.LinkFree ∧ ∃ slot', after.Holds site slot' ∧ slot'.Pristine slot.chunk := by
  induction history with
  | refl => exact ⟨linkFree, slot, holds, Or.inl ⟨vacant, rfl⟩⟩
  | tail _ batch inductionHypothesis =>
      obtain ⟨middleLinkFree, middle, middleHolds, pristine⟩ := inductionHypothesis
      obtain ⟨afterLinkFree, prunes⟩ := batch.prunesGroup middleLinkFree
      obtain ⟨merged, settings, group, last, outcomes, lastHolds, prunes⟩ := prunes middleHolds
      exact ⟨afterLinkFree, last, lastHolds, prunes.pristine nonempty pristine⟩

/-! ## What the backup says to a reader -/

theorem exists_holds_of_readText {site : Site} {text : String} (linkFree : tree.LinkFree)
    (read : tree.readText site.path = .ok text) :
    ∃ slot, tree.Holds site slot ∧ slot.chunk = text.toUTF8 := by
  have isFile := FileTree.isFile_of_readText read
  obtain ⟨own, slot, place, holds⟩ := FileTree.hasSite_of_isFile linkFree isFile
  obtain rfl := Site.path_injective place
  refine ⟨slot, holds, ?_⟩
  rw [(holds.reaches linkFree).readText holds.chunk] at read
  split at read
  next decoded =>
    cases read
    exact Text.fromUTF8?_eq_some_iff.mp decoded
  · cases read

/-- What stands at the place of a backup, seen through its path. -/
theorem FileTree.Holds.lookup_backup {site : Site} {slot : Slot} (holds : tree.Holds site slot)
    (linkFree : tree.LinkFree) :
    tree.lookup true (Chunk.backupPath site.path) =
      match slot.backupPlace site with
      | .ok (some entry) => .ok (site.backup, entry)
      | .ok none => .error .notFound
      | .error cause => .error cause := by
  rw [Slot.backupPlace]
  cases refused : FileTree.refusal? site.directory site.backupName with
  | some cause => rw [FileTree.lookup, holds.backup_refused linkFree true refused]
  | none =>
      rw [FileTree.lookup, holds.reaches_backup linkFree refused true, FileTree.placeAt,
        holds.backup]
      cases slot.backup <;> rfl

theorem pathExists_backup_loneTree (content : ByteArray) :
    (loneTree content).pathExists (Chunk.backupPath loneSite.path) = false := by
  have accepted : FileTree.refusal? loneSite.directory loneSite.backupName = none := by decide
  rw [FileTree.pathExists, (holds_loneTree content).lookup_backup (linkFree_loneTree content),
    Slot.backupPlace, accepted]

theorem FileTree.Holds.backup_eq_none {site : Site} {slot : Slot} (holds : tree.Holds site slot)
    (linkFree : tree.LinkFree) (vacant : tree.pathExists (Chunk.backupPath site.path) = false)
    (accepted : FileTree.refusal? site.directory site.backupName = none) :
    slot.backup = none := by
  rw [FileTree.pathExists, holds.lookup_backup linkFree, Slot.backupPlace, accepted] at vacant
  cases there : slot.backup with
  | none => rfl
  | some entry => simp [there] at vacant

/-- A chunk that is not empty and has no backup yet: if there is a backup after a history of
batches, it has the text of the chunk. -/
theorem History.readText_backup {site : Site} {text : String} (history : History tree after)
    (linkFree : tree.LinkFree) (read : tree.readText site.path = .ok text)
    (vacant : tree.pathExists (Chunk.backupPath site.path) = false) (nonempty : text ≠ "")
    (there : after.pathExists (Chunk.backupPath site.path) = true) :
    after.readText (Chunk.backupPath site.path) = .ok text := by
  obtain ⟨slot, holds, chunk⟩ := exists_holds_of_readText linkFree read
  cases refused : FileTree.refusal? site.directory site.backupName with
  | some cause =>
      obtain ⟨afterLinkFree, evolved, afterHolds⟩ := history.holds linkFree holds
      rw [FileTree.pathExists, afterHolds.lookup_backup afterLinkFree, Slot.backupPlace,
        refused] at there
      cases there
  | none =>
      have noBackup := holds.backup_eq_none linkFree vacant refused
      have size : slot.chunk.size ≠ 0 := by
        rw [chunk]
        exact fun empty => nonempty (String.utf8ByteSize_eq_zero_iff.mp empty)
      obtain ⟨afterLinkFree, last, afterHolds, pristine⟩ :=
        history.pristine linkFree holds noBackup size
      rcases pristine with ⟨absent, -⟩ | present
      · rw [FileTree.pathExists, afterHolds.lookup_backup afterLinkFree, Slot.backupPlace,
          refused, absent] at there
        cases there
      · have reaches := afterHolds.reaches_backup afterLinkFree refused
        rw [reaches.readText (afterHolds.backup.trans present),
          Text.fromUTF8?_eq_some_iff.mpr chunk]

/-! ## Empty chunks -/

section EmptyChunk

variable {site : Site} {slot : Slot}

/-- A batch over the only chunk of a site, with an engine that always gives the same source. -/
theorem batchOf_loneChunk (linkFree : tree.LinkFree) (holds : tree.Holds site slot)
    (target : Chunk.isTarget site.name = true) :
    ∃ after, BatchOf tree after ∧ after.Holds site
      (slot.prune steadySettings.engine loneUsage steadySettings site (loneChunk site)).1 := by
  have absolute := Path.isAbsolute_pathOf site.directory
  have enters : tree.Enters (FileTree.pathOf site.directory) :=
    FileTree.enters_of_lookup linkFree absolute
      (FileTree.lookup_directory site.directoryNames holds.opened holds.accepted)
  have located := locate_loneReport linkFree holds target enters
    (Path.location_pathOf site.directoryNames)
  have place : (loneChunk site).path = site.path := rfl
  obtain ⟨pool, steps, finished, -, ended⟩ :=
    Pool.exists_steps_single loneUsage steadySettings linkFree holds place
  refine ⟨pool.bench.tree, ⟨tree, [loneReport site (FileTree.pathOf site.directory)], loneUsage,
    steadySettings, pool, ?_, ?_, finished, rfl⟩, ended⟩
  · intro report member
    rw [List.mem_singleton.mp member]
    exact absolute
  · rw [located]
    exact Pool.Steps.mono steps fun _ _ => trivial

/-- The empty backup of an empty chunk is replaced by what the first batch wrote. -/
theorem exists_history_replaced (linkFree : tree.LinkFree)
    (holds : tree.Holds site ⟨.empty, none⟩) (target : Chunk.isTarget site.name = true)
    (accepted : FileTree.refusal? site.directory site.backupName = none) :
    ∃ after, History tree after ∧ after.LinkFree ∧
      after.Holds site ⟨"x".toUTF8, some (.file "x".toUTF8)⟩ := by
  obtain ⟨middle, first, middleHolds⟩ := batchOf_loneChunk linkFree holds target
  have emptied : (ByteArray.empty : ByteArray) = "".toUTF8 := rfl
  rw [Slot.prune_loneChunk keepFlags_loneUsage emptied accepted (Or.inl rfl)] at middleHolds
  have middleLinkFree := (first.prunesGroup linkFree).1
  obtain ⟨after, second, afterHolds⟩ := batchOf_loneChunk middleLinkFree middleHolds target
  have written : (⟨"x".toUTF8, some (.file "".toUTF8)⟩ : Slot).chunk = "x".toUTF8 := rfl
  rw [Slot.prune_loneChunk keepFlags_loneUsage written accepted
    (Or.inr ⟨rfl, by decide⟩)] at afterHolds
  exact ⟨after, .tail (.single first) second, (second.prunesGroup middleLinkFree).1, afterHolds⟩

end EmptyChunk

/-- An empty chunk that batches can work on: after some of them its backup has another text. -/
theorem exists_history_readText_backup {site : Site} (linkFree : tree.LinkFree)
    (read : tree.readText site.path = .ok "") (target : Chunk.isTarget site.name = true)
    (vacant : tree.lookup true (Chunk.backupPath site.path) = .error .notFound) :
    ∃ after, History tree after ∧ after.readText (Chunk.backupPath site.path) = .ok "x" := by
  obtain ⟨⟨chunk, backup⟩, holds, empty⟩ := exists_holds_of_readText linkFree read
  obtain rfl : chunk = .empty := empty
  have there := holds.lookup_backup linkFree
  rw [vacant, Slot.backupPlace] at there
  cases refused : FileTree.refusal? site.directory site.backupName with
  | some cause =>
      simp only [refused] at there
      cases there
      rcases FileTree.refusal?_eq_some refused with other | other <;> cases other
  | none =>
      have absent : tree.pathExists (Chunk.backupPath site.path) = false := by
        rw [FileTree.pathExists, vacant]
      obtain rfl : backup = none := holds.backup_eq_none linkFree absent refused
      obtain ⟨after, history, afterLinkFree, afterHolds⟩ :=
        exists_history_replaced linkFree holds target refused
      refine ⟨after, history, ?_⟩
      rw [(afterHolds.reaches_backup afterLinkFree refused).readText afterHolds.backup,
        Text.fromUTF8?_eq_some_iff.mpr rfl]

/-- A chunk without a backup. If its text is not empty, then after any history of batches a
backup of it has this text. If its text is empty and batches can work on it, there is a history
after which its backup has another text. -/
theorem History.backup_pristine {site : Site} {text : String} (linkFree : tree.LinkFree)
    (read : tree.readText site.path = .ok text)
    (absent : tree.pathExists (Chunk.backupPath site.path) = false) :
    (text ≠ "" → ∀ after, History tree after →
      after.pathExists (Chunk.backupPath site.path) = true →
      after.readText (Chunk.backupPath site.path) = .ok text) ∧
    (text = "" → Chunk.isTarget site.name = true →
      tree.lookup true (Chunk.backupPath site.path) = .error .notFound →
      ∃ after other, History tree after ∧ other ≠ text ∧
        after.readText (Chunk.backupPath site.path) = .ok other) := by
  constructor
  · exact fun nonempty after history => history.readText_backup linkFree read absent nonempty
  · rintro rfl target vacant
    obtain ⟨after, history, replaced⟩ :=
      exists_history_readText_backup linkFree read target vacant
    exact ⟨after, "x", history, by decide, replaced⟩

/-- In a tree with one chunk, a batch makes a backup with the text of the chunk. -/
theorem backup_pristine_loneTree :
    (loneTree "a".toUTF8).LinkFree ∧ (loneTree "a".toUTF8).readText loneSite.path = .ok "a" ∧
      (loneTree "a".toUTF8).pathExists (Chunk.backupPath loneSite.path) = false ∧
      ∃ after, History (loneTree "a".toUTF8) after ∧
        after.pathExists (Chunk.backupPath loneSite.path) = true ∧
        after.readText (Chunk.backupPath loneSite.path) = .ok "a" := by
  have linkFree := linkFree_loneTree "a".toUTF8
  have holds := holds_loneTree "a".toUTF8
  have accepted : FileTree.refusal? loneSite.directory loneSite.backupName = none := by decide
  have read := readText_loneTree "a"
  have absent := pathExists_backup_loneTree "a".toUTF8
  obtain ⟨after, batch, afterHolds⟩ := batchOf_loneChunk linkFree holds (by decide)
  have history : History (loneTree "a".toUTF8) after := .single batch
  have written : (⟨"a".toUTF8, none⟩ : Slot).chunk = "a".toUTF8 := rfl
  rw [Slot.prune_loneChunk keepFlags_loneUsage written accepted (Or.inl rfl)] at afterHolds
  have present : after.pathExists (Chunk.backupPath loneSite.path) = true := by
    rw [FileTree.pathExists, afterHolds.lookup_backup (batch.prunesGroup linkFree).1,
      Slot.backupPlace, accepted]
  exact ⟨linkFree, read, absent, after, history, present,
    (History.backup_pristine linkFree read absent).1 (by decide) after history present⟩

end ChunkPrune
