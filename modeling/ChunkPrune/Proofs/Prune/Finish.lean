import ChunkPrune.Proofs.Chunk.Slot
import ChunkPrune.Proofs.Prune.Footprint

/-!
# How the work on a chunk ends

`Slot.finish` says, for each stage, what the files of the site and the outcome will be in
the end. A step does not change what it says, so work that is interrupted by any other work
ends as if it had not been.
-/

namespace ChunkPrune

/-- What an answer of the engine is worth: a draft, or an outcome without one. -/
def PruneJob.verdict (job : PruneJob) (source : String) :
    Except Failure String → Except Outcome Draft
  | .error failure => .error (.ofFailure job.chunk failure)
  | .ok text =>
    match Answer.read? text with
    | none => .error (.ofFailure job.chunk .answerNotJson)
    | some (.failed message) => .error (.skip job.chunk .notApplied message)
    | some (.skipped reason) => .error (.skip job.chunk .notApplied reason)
    | some (.success after prune) =>
      if job.settings.accepts job.chunk.path source after then .ok ⟨source, after, prune⟩
      else .error (.skip job.chunk .notApplied unparsedReason)

theorem PruneJob.judge_eq_verdict (job : PruneJob) (source : String)
    (answer : Except Failure String) :
    job.judge source answer =
      match job.verdict source answer with
      | .ok draft => .backup draft .create
      | .error outcome => .done outcome := by
  cases answer with
  | error failure => rfl
  | ok text =>
      simp only [judge, verdict]
      cases Answer.read? text with
      | none => rfl
      | some answer =>
          cases answer with
          | failed message => rfl
          | skipped reason => rfl
          | success after prune =>
              simp only
              split <;> rfl

/-- An answer is worth a draft for what was read, or the chunk is passed over. -/
theorem PruneJob.verdict_cases (job : PruneJob) (source : String)
    (answer : Except Failure String) :
    (∃ after prune, job.verdict source answer = .ok ⟨source, after, prune⟩) ∨
      ∃ cause reason, job.verdict source answer = .error (.skip job.chunk cause reason) := by
  have worth := job.judge_eq_verdict source answer
  rcases job.judge_cases source answer with ⟨after, prune, judged⟩ | ⟨cause, reason, judged⟩
  · rw [judged] at worth
    cases verdict : job.verdict source answer with
    | error outcome => simp [verdict] at worth
    | ok draft =>
        simp only [verdict, PruneStage.backup.injEq] at worth
        exact Or.inl ⟨after, prune, by rw [worth.1]⟩
  · rw [judged] at worth
    cases verdict : job.verdict source answer with
    | error outcome =>
        simp only [verdict, PruneStage.done.injEq] at worth
        exact Or.inr ⟨cause, reason, by rw [worth]⟩
    | ok draft => simp [verdict] at worth

namespace Slot

/-- What the path of the backup leads to, or why it is refused. -/
def backupPlace (slot : Slot) (site : Site) : Except OsError (Option Entry) :=
  match FileTree.refusal? site.directory site.backupName with
  | some cause => .error cause
  | none => .ok slot.backup

def replace (slot : Slot) (site : Site) (content : ByteArray) : Slot × BackupResult :=
  match slot.backupPlace site with
  | .error cause => (slot, .error (.replaceBackup (Chunk.backupPath site.path) cause))
  | .ok (some .directory) =>
    (slot, .error (.replaceBackup (Chunk.backupPath site.path) .isDirectory))
  | .ok _ => ({ slot with backup := some (.file content) }, .ok true)

/-- An empty backup gives way when the text is not empty. -/
def inspect (slot : Slot) (site : Site) (text : String) (content : ByteArray) :
    Slot × BackupResult :=
  match slot.backupPlace site with
  | .error cause => (slot, .error (.inspectBackup (Chunk.backupPath site.path) cause))
  | .ok none => (slot, .error (.inspectBackup (Chunk.backupPath site.path) .notFound))
  | .ok (some (.file existing)) =>
    if existing.size = 0 ∧ text ≠ "" then slot.replace site content else (slot, .ok false)
  | .ok (some _) => (slot, .ok false)

/-- A backup is made where nothing stands in its place. -/
def publish (slot : Slot) (site : Site) (text : String) (content : ByteArray) :
    Slot × BackupResult :=
  match slot.backupPlace site with
  | .error cause => (slot, .error (.createBackup (Chunk.backupPath site.path) cause))
  | .ok none => ({ slot with backup := some (.file content) }, .ok true)
  | .ok (some _) => slot.inspect site text content

/-- How the making of a backup ends from a stage on, with what is staged so far. -/
def finishBackup (slot : Slot) (site : Site) (text : String) (content : ByteArray) :
    BackupStage → Slot × BackupResult
  | .create => slot.publish site text text.toUTF8
  | .fill _ pieces => slot.publish site text (pieces.foldl (· ++ ·) content)
  | .sync _ => slot.publish site text content
  | .publish _ => slot.publish site text content
  | .inspect _ => slot.inspect site text content
  | .replace _ => slot.replace site content
  | .discard _ result => (slot, result)
  | .done result => (slot, result)

/-- The chunk is overwritten once its backup is there. -/
def overwrite (job : PruneJob) (draft : Draft) : Slot × BackupResult → Slot × Outcome
  | (slot, .ok written) =>
    ({ slot with chunk := draft.after.toUTF8 }, job.pruned draft written)
  | (slot, .error failure) => (slot, .ofFailure job.chunk failure)

def conclude (slot : Slot) (job : PruneJob) (site : Site) :
    Except Outcome Draft → Slot × Outcome
  | .error outcome => (slot, outcome)
  | .ok draft => overwrite job draft (slot.publish site draft.before draft.before.toUTF8)

def ask (slot : Slot) (engine : Engine) (job : PruneJob) (site : Site) (source : String) :
    Slot × Outcome :=
  slot.conclude job site (job.verdict source (engine ⟨source, job.config⟩))

/-- How the work on a chunk ends from a stage on, with what is staged so far. -/
def finish (slot : Slot) (engine : Engine) (job : PruneJob) (site : Site)
    (content : ByteArray) : PruneStage → Slot × Outcome
  | .read =>
    match String.fromUTF8? slot.chunk with
    | some source => slot.ask engine job site source
    | none => (slot, .ofFailure job.chunk (.unreadable job.chunk.path .notText))
  | .call source => slot.ask engine job site source
  | .backup draft stage =>
    overwrite job draft (slot.finishBackup site draft.before content stage)
  | .truncate draft written =>
    ({ slot with chunk := draft.after.toUTF8 }, job.pruned draft written)
  | .write draft written pieces =>
    ({ slot with chunk := pieces.foldl (· ++ ·) slot.chunk }, job.pruned draft written)
  | .done outcome => (slot, outcome)

/-- The whole work on a chunk. -/
def prune (slot : Slot) (engine : Engine) (merged : MergedUsage) (settings : PruneSettings)
    (site : Site) (chunk : Chunk) : Slot × Outcome :=
  slot.finish engine (chunk.begin merged settings).1 site .empty
    (chunk.begin merged settings).2

theorem replace_chunk (slot : Slot) (site : Site) (content : ByteArray) :
    (slot.replace site content).1.chunk = slot.chunk := by
  rw [replace]
  split <;> rfl

theorem inspect_chunk (slot : Slot) (site : Site) (text : String) (content : ByteArray) :
    (slot.inspect site text content).1.chunk = slot.chunk := by
  rw [inspect]
  split
  · rfl
  · rfl
  · split
    · exact slot.replace_chunk site content
    · rfl
  · rfl

/-- Making a backup does not touch the chunk. -/
theorem publish_chunk (slot : Slot) (site : Site) (text : String) (content : ByteArray) :
    (slot.publish site text content).1.chunk = slot.chunk := by
  rw [publish]
  split
  · rfl
  · rfl
  · exact slot.inspect_chunk site text content

theorem finish_judge (slot : Slot) (engine : Engine) (job : PruneJob) (site : Site)
    (content : ByteArray) (source : String) (answer : Except Failure String) :
    slot.finish engine job site content (job.judge source answer) =
      slot.conclude job site (job.verdict source answer) := by
  rw [job.judge_eq_verdict]
  cases job.verdict source answer with
  | error outcome => rfl
  | ok draft => rfl

/-- Pruning concludes with what an answer to the text of the chunk is worth to the job that was
begun, or the chunk is passed over. -/
theorem prune_eq_conclude_begin_or_skip (slot : Slot) (engine : Engine) (merged : MergedUsage)
    (settings : PruneSettings) (site : Site) (chunk : Chunk) :
    (∃ source answer, slot.chunk = source.toUTF8 ∧
        slot.prune engine merged settings site chunk =
          slot.conclude (chunk.begin merged settings).1 site
            ((chunk.begin merged settings).1.verdict source answer)) ∨
      ∃ cause reason,
        slot.prune engine merged settings site chunk = (slot, .skip chunk cause reason) := by
  rw [prune]
  rcases chunk.begin_cases merged settings with begun | ⟨cause, reason, begun⟩
  · rw [begun, finish]
    split
    next source decoded =>
      exact Or.inl ⟨source, _, Text.fromUTF8?_eq_some_iff.mp decoded, rfl⟩
    · exact Or.inr ⟨_, _, rfl⟩
  · rw [begun]
    exact Or.inr ⟨cause, reason, rfl⟩

/-- Pruning concludes with what an answer to the text of the chunk is worth, or the chunk is
passed over. -/
theorem prune_eq_conclude_or_skip (slot : Slot) (engine : Engine) (merged : MergedUsage)
    (settings : PruneSettings) (site : Site) (chunk : Chunk) :
    (∃ job : PruneJob, job.chunk = chunk ∧ ∃ source answer, slot.chunk = source.toUTF8 ∧
        slot.prune engine merged settings site chunk =
          slot.conclude job site (job.verdict source answer)) ∨
      ∃ cause reason,
        slot.prune engine merged settings site chunk = (slot, .skip chunk cause reason) :=
  (slot.prune_eq_conclude_begin_or_skip engine merged settings site chunk).imp_left
    fun concludes => ⟨_, rfl, concludes⟩

end Slot

/-! ## One step towards the end -/

/-- The staged file that belongs to the work, if there is one, has some content. -/
def Workbench.Stages (bench : Workbench) (own : Option Nat) (content : ByteArray) : Prop :=
  ∀ number, own = some number →
    ∃ directory, bench.staged.get? number = some ⟨directory, content⟩

theorem Workbench.stages_none (bench : Workbench) (content : ByteArray) :
    bench.Stages none content := fun _ owned => nomatch owned

namespace BackupStage

variable {job : BackupJob} {bench : Workbench} {site : Site} {slot : Slot}
  {content : ByteArray}

/-- A step keeps the end that a stage leads to. -/
def Agrees (job : BackupJob) (site : Site) (slot : Slot) (content : ByteArray)
    (stage : BackupStage) (next : Workbench × BackupStage) : Prop :=
  ∃ slot' content', next.1.tree.Holds site slot' ∧ next.1.Stages next.2.staged? content' ∧
    slot'.finishBackup site job.text content' next.2 =
      slot.finishBackup site job.text content stage

theorem step_create (holds : bench.tree.Holds site slot)
    (atSite : job.chunk = site.path) :
    Agrees job site slot content create (create.step job none bench) := by
  have directory : job.directory = FileTree.pathOf site.directory := by
    rw [BackupJob.directory, atSite, Site.path, Site.location,
      FileTree.parent?_pathOf site.directoryNames site.isName]
    exact if_neg fun empty => absurd (Path.toList_pathOf site.directory) (by simp [empty])
  have found := FileTree.lookup_directory site.directoryNames holds.opened holds.accepted
  have stepped : create.step job none bench =
      ({ bench with staged := bench.staged.insert bench.freshStaged ⟨site.directory, .empty⟩ },
        fill bench.freshStaged (job.cutting.pieces job.text.toUTF8)) := by
    simp only [step, underFault, Workbench.createStaged, directory, found]
  rw [stepped]
  refine ⟨slot, .empty, holds, ?_, ?_⟩
  · intro number owned
    cases owned
    exact ⟨site.directory, (Table.get?_insert _ _ _ _).trans (if_pos rfl)⟩
  · show slot.publish site job.text ((job.cutting.pieces job.text.toUTF8).foldl (· ++ ·) .empty) =
      slot.publish site job.text job.text.toUTF8
    rw [job.cutting.joined]

theorem step_fill (holds : bench.tree.Holds site slot) {file : Nat} (pieces : List ByteArray)
    (stages : bench.Stages (some file) content) :
    Agrees job site slot content (fill file pieces) ((fill file pieces).step job none bench) := by
  cases pieces with
  | nil => exact ⟨slot, content, holds, stages, rfl⟩
  | cons piece rest =>
      obtain ⟨directory, staged⟩ := stages file rfl
      have stepped : (fill file (piece :: rest)).step job none bench =
          ({ bench with staged := bench.staged.insert file ⟨directory, content ++ piece⟩ },
            fill file rest) := by
        simp only [step, underFault, Workbench.appendStaged, staged]
      rw [stepped]
      refine ⟨slot, content ++ piece, holds, ?_, rfl⟩
      intro number owned
      cases owned
      exact ⟨directory, (Table.get?_insert _ _ _ _).trans (if_pos rfl)⟩

theorem step_publish (linkFree : bench.tree.LinkFree) (holds : bench.tree.Holds site slot)
    (atSite : job.backup = Chunk.backupPath site.path) {file : Nat}
    (stages : bench.Stages (some file) content) :
    Agrees job site slot content (publish file) ((publish file).step job none bench) := by
  obtain ⟨directory, staged⟩ := stages file rfl
  cases refused : FileTree.refusal? site.directory site.backupName with
  | some cause =>
      have failed : bench.tree.placeNew (Chunk.backupPath site.path) content = .error cause := by
        rw [FileTree.placeNew, holds.backup_refused linkFree false refused]
      have stepped : (publish file).step job none bench =
          (bench, discard file (.error (.createBackup (Chunk.backupPath site.path) cause))) := by
        rcases FileTree.refusal?_eq_some refused with rfl | rfl
        · simp [step, underFault, Workbench.publishStaged, staged, atSite, failed, Except.map]
        · simp [step, underFault, Workbench.publishStaged, staged, atSite, failed, Except.map]
      rw [stepped]
      refine ⟨slot, content, holds, stages, ?_⟩
      simp [Slot.finishBackup, Slot.publish, Slot.backupPlace, refused]
  | none =>
      have reaches := holds.reaches_backup linkFree refused
      cases found : slot.backup with
      | none =>
          have placed := reaches.placeNew_vacant (holds.backup.trans found) content
          have stepped : (publish file).step job none bench =
              ({ bench.discardStaged file with
                  tree := bench.tree.put site.backup (.file content) }, done (.ok true)) := by
            simp [step, underFault, Workbench.publishStaged, staged, atSite, placed, Except.map]
          rw [stepped]
          refine ⟨_, content, holds.put_backup (by simp [found]) content,
            Workbench.stages_none _ _, ?_⟩
          simp [Slot.finishBackup, Slot.publish, Slot.backupPlace, refused, found]
      | some entry =>
          have occupied := reaches.placeNew_occupied (holds.backup.trans found) content
          have stepped : (publish file).step job none bench = (bench, inspect file) := by
            simp [step, underFault, Workbench.publishStaged, staged, atSite, occupied, Except.map]
          rw [stepped]
          refine ⟨slot, content, holds, stages, ?_⟩
          simp [Slot.finishBackup, Slot.publish, Slot.backupPlace, refused, found]

theorem step_inspect (linkFree : bench.tree.LinkFree) (holds : bench.tree.Holds site slot)
    (atSite : job.backup = Chunk.backupPath site.path) {file : Nat}
    (stages : bench.Stages (some file) content) :
    Agrees job site slot content (inspect file) ((inspect file).step job none bench) := by
  cases refused : FileTree.refusal? site.directory site.backupName with
  | some cause =>
      have failed : bench.tree.length (Chunk.backupPath site.path) = .error cause := by
        rw [FileTree.length, FileTree.lookup, holds.backup_refused linkFree true refused]
      refine ⟨slot, content, ?_⟩
      simp only [step, underFault, atSite, failed]
      refine ⟨holds, stages, ?_⟩
      simp [Slot.finishBackup, Slot.inspect, Slot.backupPlace, refused]
  | none =>
      have reaches := holds.reaches_backup linkFree refused
      refine ⟨slot, content, ?_⟩
      rcases holds.backup_cases linkFree with vacant | isDirectory | ⟨existing, found⟩
      · have missing : bench.tree.length (Chunk.backupPath site.path) = .error .notFound := by
          rw [FileTree.length, FileTree.lookup, reaches true, FileTree.placeAt, holds.backup,
            vacant]
        simp only [step, underFault, atSite, missing]
        refine ⟨holds, stages, ?_⟩
        simp [Slot.finishBackup, Slot.inspect, Slot.backupPlace, refused, vacant]
      · have length := reaches.length_directory (holds.backup.trans isDirectory)
        simp only [step, underFault, atSite, length]
        refine ⟨holds, stages, ?_⟩
        simp [Slot.finishBackup, Slot.inspect, Slot.backupPlace, refused, isDirectory,
          FileTree.directoryLength]
      · have length := reaches.length_file (holds.backup.trans found)
        simp only [step, underFault, atSite, length]
        by_cases empty : existing.size = 0 ∧ job.text ≠ ""
        · rw [if_pos empty]
          refine ⟨holds, stages, ?_⟩
          simp [Slot.finishBackup, Slot.inspect, Slot.backupPlace, refused, found, empty]
        · rw [if_neg empty]
          refine ⟨holds, stages, ?_⟩
          simp only [Slot.finishBackup, Slot.inspect, Slot.backupPlace, refused, found]
          rw [if_neg empty]

theorem step_replace (linkFree : bench.tree.LinkFree) (holds : bench.tree.Holds site slot)
    (atSite : job.backup = Chunk.backupPath site.path) {file : Nat}
    (stages : bench.Stages (some file) content) :
    Agrees job site slot content (replace file) ((replace file).step job none bench) := by
  obtain ⟨directory, staged⟩ := stages file rfl
  cases refused : FileTree.refusal? site.directory site.backupName with
  | some cause =>
      have failed : bench.tree.replaceAt (Chunk.backupPath site.path) (.file content) =
          .error cause := by
        rw [FileTree.replaceAt, holds.backup_refused linkFree false refused]
      refine ⟨slot, content, ?_⟩
      simp only [step, underFault, Workbench.replaceWithStaged, staged, atSite, failed, Except.map]
      refine ⟨holds, stages, ?_⟩
      simp [Slot.finishBackup, Slot.replace, Slot.backupPlace, refused]
  | none =>
      have reaches := holds.reaches_backup linkFree refused
      by_cases isDirectory : slot.backup = some .directory
      · have failed : bench.tree.replaceAt (Chunk.backupPath site.path) (.file content) =
            .error .isDirectory := by
          rw [FileTree.replaceAt, reaches false, FileTree.placeAt, holds.backup, isDirectory]
        refine ⟨slot, content, ?_⟩
        simp only [step, underFault, Workbench.replaceWithStaged, staged, atSite, failed,
          Except.map]
        refine ⟨holds, stages, ?_⟩
        simp [Slot.finishBackup, Slot.replace, Slot.backupPlace, refused, isDirectory]
      · have replaced : bench.tree.replaceAt (Chunk.backupPath site.path) (.file content) =
            .ok (bench.tree.put site.backup (.file content)) := by
          rw [FileTree.replaceAt, reaches false, FileTree.placeAt, holds.backup]
          rcases holds.backup_cases linkFree with vacant | directory | ⟨before, found⟩
          · simp [vacant]
          · exact absurd directory isDirectory
          · simp [found]
        have stepped : (replace file).step job none bench =
            ({ bench.discardStaged file with
                tree := bench.tree.put site.backup (.file content) }, done (.ok true)) := by
          simp [step, underFault, Workbench.replaceWithStaged, staged, atSite, replaced,
            Except.map]
        rw [stepped]
        refine ⟨_, content, holds.put_backup isDirectory content, Workbench.stages_none _ _, ?_⟩
        simp only [Slot.finishBackup, Slot.replace, Slot.backupPlace, refused]

theorem step_agrees (linkFree : bench.tree.LinkFree) (holds : bench.tree.Holds site slot)
    (atSite : job.chunk = site.path) {stage : BackupStage} (running : stage.result? = none)
    (stages : bench.Stages stage.staged? content) :
    Agrees job site slot content stage (stage.step job none bench) := by
  have target : job.backup = Chunk.backupPath site.path := by rw [BackupJob.backup, atSite]
  cases stage with
  | create => exact step_create holds atSite
  | fill file pieces => exact step_fill holds pieces stages
  | sync file => exact ⟨slot, content, holds, stages, rfl⟩
  | publish file => exact step_publish linkFree holds target stages
  | inspect file => exact step_inspect linkFree holds target stages
  | replace file => exact step_replace linkFree holds target stages
  | discard file result => exact ⟨slot, content, holds, Workbench.stages_none _ _, rfl⟩
  | done result => cases running

end BackupStage

namespace PruneStage

variable {job : PruneJob} {bench : Workbench} {site : Site} {slot : Slot}
  {content : ByteArray}

/-- A step keeps the end that a stage leads to. The engine of the job counts only in the
step that asks it. -/
def Agrees (job : PruneJob) (site : Site) (slot : Slot) (content : ByteArray)
    (stage : PruneStage) (next : Workbench × PruneStage) : Prop :=
  ∃ slot' content', next.1.tree.Holds site slot' ∧ next.1.Stages next.2.staged? content' ∧
    ∀ engine, slot'.finish engine job site content' next.2 =
      slot.finish (if stage.asks?.isSome then job.settings.engine else engine) job site
        content stage

theorem step_read (linkFree : bench.tree.LinkFree) (holds : bench.tree.Holds site slot)
    (atSite : job.chunk.path = site.path) (content : ByteArray) :
    Agrees job site slot content read (read.step job none bench) := by
  have text := (holds.reaches linkFree).readText holds.chunk
  cases decoded : String.fromUTF8? slot.chunk with
  | some source =>
      have stepped : read.step job none bench = (bench, call source) := by
        simp [step, atSite, text, decoded]
      rw [stepped]
      refine ⟨slot, content, holds, Workbench.stages_none _ _, fun engine => ?_⟩
      simp [Slot.finish, decoded, asks?]
  | none =>
      have stepped : read.step job none bench =
          (bench, done (.ofFailure job.chunk (.unreadable job.chunk.path .notText))) := by
        simp [step, atSite, text, decoded]
      rw [stepped]
      refine ⟨slot, content, holds, Workbench.stages_none _ _, fun engine => ?_⟩
      simp [Slot.finish, decoded]

theorem step_backup (linkFree : bench.tree.LinkFree) (holds : bench.tree.Holds site slot)
    (atSite : job.chunk.path = site.path) (draft : Draft) {stage : BackupStage}
    (stages : bench.Stages stage.staged? content) :
    Agrees job site slot content (backup draft stage)
      ((backup draft stage).step job none bench) := by
  cases finished : stage.result? with
  | none =>
      have stepped : (backup draft stage).step job none bench =
          ((stage.step (job.backupJob draft) none bench).1,
            backup draft (stage.step (job.backupJob draft) none bench).2) := by
        rw [step, finished]
      rw [stepped]
      have agrees : BackupStage.Agrees (job.backupJob draft) site slot content stage _ :=
        BackupStage.step_agrees linkFree holds atSite finished stages
      obtain ⟨slot', content', holds', stages', same⟩ := agrees
      refine ⟨slot', content', holds', stages', fun engine => ?_⟩
      exact congrArg (Slot.overwrite job draft) same
  | some result =>
      cases stage with
      | done ended =>
          cases finished
          cases result with
          | ok written => exact ⟨slot, content, holds, stages, fun engine => rfl⟩
          | error failure => exact ⟨slot, content, holds, stages, fun engine => rfl⟩
      | _ => cases finished

/-- Before the new source is written, the chunk is empty. -/
theorem step_truncate_eq (linkFree : bench.tree.LinkFree) (holds : bench.tree.Holds site slot)
    (atSite : job.chunk.path = site.path) (draft : Draft) (written : Bool) :
    (truncate draft written).step job none bench =
      ({ bench with tree := bench.tree.put site.location (.file .empty) },
        write draft written (job.settings.cutting.pieces draft.after.toUTF8)) := by
  have emptied := (holds.reaches linkFree).writeFile holds.chunk .empty
  simp [step, underFault, Workbench.truncate, atSite, emptied, Except.map]

theorem step_truncate (linkFree : bench.tree.LinkFree) (holds : bench.tree.Holds site slot)
    (atSite : job.chunk.path = site.path) (content : ByteArray) (draft : Draft)
    (written : Bool) :
    Agrees job site slot content (truncate draft written)
      ((truncate draft written).step job none bench) := by
  rw [step_truncate_eq linkFree holds atSite]
  refine ⟨_, content, holds.put_chunk .empty, Workbench.stages_none _ _, fun engine => ?_⟩
  simp only [Slot.finish]
  rw [job.settings.cutting.joined]

theorem step_write (linkFree : bench.tree.LinkFree) (holds : bench.tree.Holds site slot)
    (atSite : job.chunk.path = site.path) (content : ByteArray) (draft : Draft)
    (written : Bool) (pieces : List ByteArray) :
    Agrees job site slot content (write draft written pieces)
      ((write draft written pieces).step job none bench) := by
  cases pieces with
  | nil => exact ⟨slot, content, holds, Workbench.stages_none _ _, fun engine => rfl⟩
  | cons piece rest =>
      have grown := (holds.reaches linkFree).appendFile holds.chunk piece
      have stepped : (write draft written (piece :: rest)).step job none bench =
          ({ bench with tree := bench.tree.put site.location (.file (slot.chunk ++ piece)) },
            write draft written rest) := by
        simp [step, underFault, Workbench.append, atSite, grown, Except.map]
      rw [stepped]
      exact ⟨_, content, holds.put_chunk _, Workbench.stages_none _ _, fun engine => rfl⟩

theorem step_agrees (linkFree : bench.tree.LinkFree) (holds : bench.tree.Holds site slot)
    (atSite : job.chunk.path = site.path) {stage : PruneStage}
    (running : stage.outcome? = none) (stages : bench.Stages stage.staged? content) :
    Agrees job site slot content stage (stage.step job none bench) := by
  cases stage with
  | read => exact step_read linkFree holds atSite content
  | call source =>
      refine ⟨slot, .empty, holds, ?_, fun engine => ?_⟩
      · rw [step, staged?_judge]
        exact Workbench.stages_none _ _
      · exact slot.finish_judge engine job site .empty source _
  | backup draft stage => exact step_backup linkFree holds atSite draft stages
  | truncate draft written => exact step_truncate linkFree holds atSite content draft written
  | write draft written pieces =>
      exact step_write linkFree holds atSite content draft written pieces
  | done outcome => cases running

end PruneStage

end ChunkPrune
