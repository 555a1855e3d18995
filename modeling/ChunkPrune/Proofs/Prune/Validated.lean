import ChunkPrune.Proofs.Prune.Pristine

/-!
# Validation keeps programs

New source that is no program is taken when the old source is none either. The old source is what
was read for this very rewriting, so a chunk that is a program stays one through any number of
rewritings, whatever the engines answer.
-/

namespace ChunkPrune

/-- With validation, source that is taken in place of a program is a program. -/
theorem PruneSettings.parses_of_accepts {settings : PruneSettings} {path : Path}
    {before after : String} (validate : settings.validate = true)
    (accepted : settings.accepts path before after = true)
    (parses : settings.parses path before = true) : settings.parses path after = true := by
  simpa [accepts, validate, parses] using accepted

/-- A draft replaces the text that the engine was asked about, and was accepted for it. -/
theorem PruneJob.accepts_of_verdict {job : PruneJob} {source : String}
    {answer : Except Failure String} {draft : Draft}
    (worth : job.verdict source answer = .ok draft) :
    job.settings.accepts job.chunk.path source draft.after = true := by
  cases answer with
  | error failure => cases worth
  | ok text =>
      simp only [verdict] at worth
      split at worth
      · cases worth
      · cases worth
      · cases worth
      next after prune _ =>
        split at worth
        next accepted =>
          cases worth
          exact accepted
        next => cases worth

namespace Slot

/-- The chunk of the slot is a program at the path of the site. -/
def Parses (parses : Path → String → Bool) (site : Site) (slot : Slot) : Prop :=
  ∃ text : String, slot.chunk = text.toUTF8 ∧ parses site.path text = true

variable {slot : Slot} {site : Site} {merged : MergedUsage} {settings : PruneSettings}

theorem overwrite_parses {parses : Path → String → Bool} {published : Slot × BackupResult}
    (before : published.1.Parses parses site) {draft : Draft}
    (after : parses site.path draft.after = true) (job : PruneJob) :
    (overwrite job draft published).1.Parses parses site := by
  obtain ⟨slot, result⟩ := published
  cases result with
  | ok written => exact ⟨draft.after, rfl, after⟩
  | error failure => exact before

/-- What an answer is compared with is the text that it replaces, so the chunk stays a program. -/
theorem conclude_parses {job : PruneJob} (validate : job.settings.validate = true)
    (place : job.chunk.path = site.path) {source : String} (read : slot.chunk = source.toUTF8)
    (parses : job.settings.parses site.path source = true) (answer : Except Failure String) :
    (slot.conclude job site (job.verdict source answer)).1.Parses job.settings.parses site := by
  have before : slot.Parses job.settings.parses site := ⟨source, read, parses⟩
  cases worth : job.verdict source answer with
  | error outcome => exact before
  | ok draft =>
      have accepted := place ▸ PruneJob.accepts_of_verdict worth
      have after := PruneSettings.parses_of_accepts validate accepted parses
      apply overwrite_parses _ after
      rwa [Parses, publish_chunk]

/-- One pruning with validation. -/
theorem prune_parses (validate : settings.validate = true)
    (before : slot.Parses settings.parses site) {chunk : Chunk} (place : chunk.path = site.path)
    (engine : Engine) :
    (slot.prune engine merged settings site chunk).1.Parses settings.parses site := by
  rcases slot.prune_eq_conclude_begin_or_skip engine merged settings site chunk with
    ⟨source, answer, read, concluded⟩ | ⟨cause, reason, passed⟩
  · obtain ⟨text, chunk, parses⟩ := before
    obtain rfl : text = source := String.toByteArray_inj.mp (chunk.symm.trans read)
    rw [concluded]
    exact conclude_parses validate place read parses answer
  · rwa [passed]

theorem PrunesGroup.parses {engines : Engine → Prop} {after : Slot} {group : List NumberedChunk}
    {outcomes : List NumberedOutcome}
    (prunes : slot.PrunesGroup engines merged settings site group after outcomes)
    (validate : settings.validate = true) (places : ∀ entry ∈ group, entry.2.path = site.path)
    (before : slot.Parses settings.parses site) : after.Parses settings.parses site := by
  induction prunes with
  | nil slot => exact before
  | cons engine allowed others inductionHypothesis =>
      obtain ⟨place, otherPlaces⟩ := List.forall_mem_cons.mp places
      exact inductionHypothesis otherPlaces (prune_parses validate before place engine)

end Slot

/-! ## Histories of validated batches -/

/-- A batch with validation over chunks that were located for absolute output directories. -/
def ValidatedBatch (parses : Path → String → Bool) (tree after : FileTree) : Prop :=
  ∃ (located : FileTree) (reports : List AppReport) (merged : MergedUsage)
    (settings : PruneSettings) (pool : Pool),
    (settings.validate = true ∧ settings.parses = parses) ∧
      (∀ report ∈ reports, report.outputDir.isAbsolute = true) ∧
      Pool.Steps Engine.Any merged settings
        (.start (.ofTree tree) (Chunk.locate located reports)) pool ∧
      pool.Finished ∧ pool.bench.tree = after

/-- Batches with the same parser, one after another. -/
abbrev ValidatedHistory (parses : Path → String → Bool) : FileTree → FileTree → Prop :=
  Relation.ReflTransGen (ValidatedBatch parses)

variable {parses : Path → String → Bool} {tree after : FileTree}

/-- The batches of the program with validation are among these. -/
theorem validatedBatch_pruneChunks (tree located : FileTree) {reports : List AppReport}
    (absolute : ∀ report ∈ reports, report.outputDir.isAbsolute = true) (merged : MergedUsage)
    {settings : PruneSettings} (validate : settings.validate = true) :
    ValidatedBatch settings.parses tree
      (pruneChunks merged settings (.ofTree tree) (Chunk.locate located reports)).1.tree := by
  have allowed : Engine.Any settings.engine := trivial
  obtain ⟨pool, steps, finished, bench, -⟩ := Pool.exists_steps_pruneChunks allowed merged
    (.ofTree tree) (Chunk.locate located reports)
  exact ⟨located, reports, merged, settings, pool, ⟨validate, rfl⟩, absolute, steps, finished,
    congrArg Workbench.tree bench⟩

/-- A validated batch keeps the program of a site, with whichever of its chunks it rewrites it. -/
theorem ValidatedBatch.keeps (batch : ValidatedBatch parses tree after)
    (linkFree : tree.LinkFree) {site : Site} {slot : Slot} (holds : tree.Holds site slot)
    (before : slot.Parses parses site) :
    after.LinkFree ∧ ∃ slot', after.Holds site slot' ∧ slot'.Parses parses site := by
  obtain ⟨located, reports, merged, settings, pool, ⟨validate, rfl⟩, absolute, steps, finished,
    rfl⟩ := batch
  obtain ⟨afterLinkFree, prunes⟩ := steps.prunesGroup_of_located absolute finished linkFree
  obtain ⟨slot', outcomes, afterHolds, group⟩ := prunes holds
  refine ⟨afterLinkFree, slot', afterHolds, group.parses validate ?_ before⟩
  intro entry member
  exact of_decide_eq_true (List.mem_filter.mp member).2

theorem ValidatedHistory.keeps (history : ValidatedHistory parses tree after)
    (linkFree : tree.LinkFree) {site : Site} {slot : Slot} (holds : tree.Holds site slot)
    (before : slot.Parses parses site) :
    after.LinkFree ∧ ∃ slot', after.Holds site slot' ∧ slot'.Parses parses site := by
  induction history with
  | refl => exact ⟨linkFree, slot, holds, before⟩
  | tail _ batch inductionHypothesis =>
      obtain ⟨middleLinkFree, middle, middleHolds, middleParses⟩ := inductionHypothesis
      exact batch.keeps middleLinkFree middleHolds middleParses

/-- Let a chunk that was located for an absolute output directory be a program. After any history
of validated batches it is a program still. -/
theorem ValidatedHistory.parses_readText {located : FileTree} {reports : List AppReport}
    (absolute : ∀ report ∈ reports, report.outputDir.isAbsolute = true) {chunk : Chunk}
    (member : chunk ∈ Chunk.locate located reports) {text : String} (linkFree : tree.LinkFree)
    (read : tree.readText chunk.path = .ok text) (program : parses chunk.path text = true)
    (history : ValidatedHistory parses tree after) :
    ∃ text', after.readText chunk.path = .ok text' ∧ parses chunk.path text' = true := by
  obtain ⟨report, reportMember, record, source⟩ := Chunk.from_of_mem_locate member
  obtain ⟨site, place, -⟩ := source.exists_site (absolute report reportMember)
  rw [place] at read program ⊢
  obtain ⟨slot, holds, content⟩ := exists_holds_of_readText linkFree read
  obtain ⟨afterLinkFree, slot', afterHolds, text', written, stays⟩ :=
    history.keeps linkFree holds ⟨text, content, program⟩
  refine ⟨text', ?_, stays⟩
  rw [(afterHolds.reaches afterLinkFree).readText afterHolds.chunk,
    Text.fromUTF8?_eq_some_iff.mpr written]

/-- An engine that answers every call with the same source. Every text but the empty one is a
program. -/
def checkedSettings : PruneSettings :=
  { steadySettings with validate := true, parses := fun _ text => text != "" }

/-- A validated batch rewrites the chunk of a tree, which stays a program. -/
theorem parses_readText_loneTree :
    (∀ report ∈ [loneReport loneSite loneDir], report.outputDir.isAbsolute = true) ∧
      loneChunk loneSite ∈ Chunk.locate (loneTree "a".toUTF8) [loneReport loneSite loneDir] ∧
      (loneTree "a".toUTF8).LinkFree ∧
      (loneTree "a".toUTF8).readText (loneChunk loneSite).path = .ok "a" ∧
      checkedSettings.parses (loneChunk loneSite).path "a" = true ∧
      ∃ after, ValidatedHistory checkedSettings.parses (loneTree "a".toUTF8) after ∧
        after.readText (loneChunk loneSite).path = .ok "x" ∧
        ∃ text', after.readText (loneChunk loneSite).path = .ok text' ∧
          checkedSettings.parses (loneChunk loneSite).path text' = true := by
  have linkFree := linkFree_loneTree "a".toUTF8
  have holds := holds_loneTree "a".toUTF8
  have place : (loneChunk loneSite).path = loneSite.path := rfl
  have accepted : FileTree.refusal? loneSite.directory loneSite.backupName = none := by decide
  have located := locate_loneReport linkFree holds (by decide) (enters_loneDir _)
    (Path.location_pathOf loneSite.directoryNames)
  have absolute : ∀ report ∈ [loneReport loneSite loneDir],
      report.outputDir.isAbsolute = true := by
    intro report member
    rw [List.mem_singleton.mp member]
    exact Path.isAbsolute_pathOf _
  have member : loneChunk loneSite ∈
      Chunk.locate (loneTree "a".toUTF8) [loneReport loneSite loneDir] := by
    rw [located]
    exact List.mem_singleton_self _
  have steady : checkedSettings.engine = steadySettings.engine := rfl
  have approves : checkedSettings.accepts loneSite.path "a" "x" = true := rfl
  obtain ⟨pool, steps, finished, -, ended⟩ :=
    Pool.exists_steps_single loneUsage checkedSettings linkFree holds place
  rw [Slot.prune_loneChunk_of_accepts keepFlags_loneUsage steady approves rfl accepted
    (Or.inl rfl)] at ended
  have batch : ValidatedBatch checkedSettings.parses (loneTree "a".toUTF8) pool.bench.tree := by
    refine ⟨loneTree "a".toUTF8, _, loneUsage, checkedSettings, pool, ⟨rfl, rfl⟩, absolute, ?_,
      finished, rfl⟩
    rw [located]
    exact Pool.Steps.mono steps fun _ _ => trivial
  have history : ValidatedHistory checkedSettings.parses _ _ := .single batch
  have program : checkedSettings.parses (loneChunk loneSite).path "a" = true := rfl
  have rewritten : pool.bench.tree.readText (loneChunk loneSite).path = .ok "x" := by
    have stays := (batch.keeps linkFree holds ⟨"a", rfl, program⟩).1
    rw [place, (ended.reaches stays).readText ended.chunk, Text.fromUTF8?_eq_some_iff.mpr rfl]
  exact ⟨absolute, member, linkFree, readText_loneTree "a", program, pool.bench.tree, history,
    rewritten, history.parses_readText absolute member linkFree (readText_loneTree "a") program⟩

end ChunkPrune
