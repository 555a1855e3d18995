import Mathlib.Logic.Relation
import ChunkPrune.Proofs.FileTree.Aside
import ChunkPrune.Proofs.Prune.Crew

/-!
# What is left behind when a chunk is passed over

Faults may hit the steps of pruning a chunk. Up to the backup nothing is changed but the own staged
file, and a failure takes that away again; once there is a backup, the chunk that was read can be
overwritten. So a chunk that is passed over leaves all files as they were, whatever stands at its
path and at that of its backup.
-/

namespace ChunkPrune

namespace Workbench

variable {start bench after : Workbench} {file : Nat} {content : ByteArray}

/-- All files are the same, those with a name and those without. -/
structure Same (start bench : Workbench) : Prop where
  tree : bench.tree = start.tree
  staged : bench.staged = start.staged

/-- All files are the same but one that is staged, with a content. -/
structure Drafts (start : Workbench) (file : Nat) (content : ByteArray) (bench : Workbench) :
    Prop where
  tree : bench.tree = start.tree
  others : bench.staged.erase file = start.staged
  stages : bench.Stages (some file) content

theorem Same.drafts (same : start.Same bench) {directory : Path}
    (created : bench.createStaged directory = .ok (file, after)) :
    start.Drafts file .empty after := by
  obtain ⟨tree, stages⟩ := stages_of_createStaged created
  refine ⟨tree.trans same.tree, ?_, stages⟩
  rw [createStaged] at created
  split at created
  · cases created
    rw [Table.erase_insert, Table.erase_of_absent bench.get?_freshStaged, same.staged]
  · cases created
  · cases created

theorem Drafts.append (drafts : start.Drafts file content bench) {piece : ByteArray}
    (appended : bench.appendStaged file piece = .ok after) :
    start.Drafts file (content ++ piece) after := by
  obtain ⟨tree, stages⟩ := stages_of_appendStaged appended drafts.stages
  refine ⟨tree.trans drafts.tree, ?_, stages⟩
  obtain ⟨directory, found⟩ := drafts.stages file rfl
  rw [appendStaged, found] at appended
  cases appended
  rw [Table.erase_insert, drafts.others]

theorem Drafts.discard (drafts : start.Drafts file content bench) :
    start.Same (bench.discardStaged file) :=
  ⟨drafts.tree, drafts.others⟩

theorem Drafts.publish (drafts : start.Drafts file content bench) {target : Path}
    (published : bench.publishStaged file target = .ok after) :
    after.staged = start.staged ∧ start.tree.placeNew target content = .ok after.tree := by
  obtain ⟨directory, found⟩ := drafts.stages file rfl
  rw [publishStaged, found] at published
  obtain ⟨tree, placed, rfl⟩ := exists_of_map_eq_ok published
  rw [drafts.tree] at placed
  exact ⟨drafts.others, placed⟩

theorem Drafts.replace (drafts : start.Drafts file content bench) {target : Path}
    (replaced : bench.replaceWithStaged file target = .ok after) :
    after.staged = start.staged ∧
      start.tree.replaceAt target (.file content) = .ok after.tree := by
  obtain ⟨directory, found⟩ := drafts.stages file rfl
  rw [replaceWithStaged, found] at replaced
  obtain ⟨tree, placed, rfl⟩ := exists_of_map_eq_ok replaced
  rw [drafts.tree] at placed
  exact ⟨drafts.others, placed⟩

end Workbench

/-! ## Making a backup -/

namespace BackupStage

/-- What the making of a backup has done when it has ended. -/
inductive Ended (job : BackupJob) (start bench : Workbench) : BackupResult → Prop
  | written (location : Location) (staged : bench.staged = start.staged)
      (given : start.tree.Given job.backup job.text.toUTF8 location bench.tree) :
      Ended job start bench (.ok true)
  | kept (same : start.Same bench) (length : Nat)
      (measured : start.tree.length job.backup = .ok length)
      (settled : ¬ (length = 0 ∧ job.text ≠ "")) : Ended job start bench (.ok false)
  | failed (same : start.Same bench) (failure : Failure) : Ended job start bench (.error failure)

/-- What the making of a backup has done up to a stage. -/
def Holds (job : BackupJob) (start bench : Workbench) : BackupStage → Prop
  | create => start.Same bench
  | fill file pieces =>
    ∃ content, start.Drafts file content bench ∧
      pieces.foldl (· ++ ·) content = job.text.toUTF8
  | sync file => start.Drafts file job.text.toUTF8 bench
  | publish file => start.Drafts file job.text.toUTF8 bench
  | inspect file => start.Drafts file job.text.toUTF8 bench
  | replace file =>
    start.Drafts file job.text.toUTF8 bench ∧ start.tree.length job.backup = .ok 0 ∧
      job.text ≠ ""
  | discard file result =>
    (∃ content, start.Drafts file content bench) ∧
      ∀ after, start.Same after → Ended job start after result
  | done result => Ended job start bench result

variable {job : BackupJob} {start bench : Workbench} {stage : BackupStage}

theorem given_of_placeNew {tree after : FileTree} {path : Path} {content : ByteArray}
    (placed : tree.placeNew path content = .ok after) :
    ∃ location, tree.Given path content location after := by
  rw [FileTree.placeNew] at placed
  split at placed
  next location slash resolved =>
    cases slash with
    | true => cases placed
    | false =>
        cases placed
        exact ⟨location, rfl, _, resolved, .free, Or.inl rfl⟩
  · cases placed
  · cases placed
  · cases placed

/-- Each step, hit by a fault or not, keeps what the stages say. -/
theorem step_holds (fault : Option OsError) (holds : stage.Holds job start bench) :
    (stage.step job fault bench).2.Holds job start (stage.step job fault bench).1 := by
  cases stage with
  | create =>
      rw [step]
      split
      next file after created =>
        exact ⟨.empty, Workbench.Same.drafts holds (eq_ok_of_underFault created),
          job.cutting.joined _⟩
      next cause refused => exact .failed holds _
  | fill file pieces =>
      obtain ⟨content, drafts, whole⟩ := holds
      cases pieces with
      | nil =>
          obtain rfl : content = job.text.toUTF8 := whole
          exact drafts
      | cons piece rest =>
          rw [step]
          split
          next after appended =>
            exact ⟨_, drafts.append (eq_ok_of_underFault appended), whole⟩
          next cause refused => exact ⟨⟨content, drafts⟩, fun after same => .failed same _⟩
  | sync file =>
      cases fault with
      | none => exact holds
      | some cause => exact ⟨⟨_, holds⟩, fun after same => .failed same _⟩
  | publish file =>
      rw [step]
      split
      next after published =>
        obtain ⟨staged, placed⟩ := Workbench.Drafts.publish holds (eq_ok_of_underFault published)
        obtain ⟨location, given⟩ := given_of_placeNew placed
        exact .written location staged given
      next refused => exact holds
      next cause other refused => exact ⟨⟨_, holds⟩, fun after same => .failed same _⟩
  | inspect file =>
      rw [step]
      split
      next length measured =>
        have found := eq_ok_of_underFault measured
        rw [Workbench.Drafts.tree holds] at found
        split
        next empty =>
          rw [empty.1] at found
          exact ⟨holds, found, empty.2⟩
        next settled => exact ⟨⟨_, holds⟩, fun after same => .kept same length found settled⟩
      next cause refused => exact ⟨⟨_, holds⟩, fun after same => .failed same _⟩
  | replace file =>
      obtain ⟨drafts, empty, nonempty⟩ := holds
      rw [step]
      split
      next after replaced =>
        obtain ⟨staged, placed⟩ := drafts.replace (eq_ok_of_underFault replaced)
        obtain ⟨place, location, resolved, takes, shape⟩ :=
          FileTree.exists_place_of_replaceAt placed
        have filled : job.text.toUTF8.size ≠ 0 :=
          fun bytes => nonempty (String.utf8ByteSize_eq_zero_iff.mp bytes)
        exact .written location staged ⟨shape, place, resolved, takes, Or.inr ⟨empty, filled⟩⟩
      next cause refused => exact ⟨⟨_, drafts⟩, fun after same => .failed same _⟩
  | discard file result =>
      obtain ⟨⟨content, drafts⟩, ended⟩ := holds
      exact ended _ drafts.discard
  | done result => exact holds

/-- With a backup made or kept, the path of the chunk leads to its file as before. -/
theorem Ended.lookup_chunk {written : Bool} (ended : Ended job start bench (.ok written))
    {location : Location}
    (found : start.tree.lookup true job.chunk = .ok (location, .file job.text.toUTF8)) :
    bench.tree.lookup true job.chunk = .ok (location, .file job.text.toUTF8) := by
  cases ended with
  | written there staged given => exact given.lookup_other (by decide) (by decide) found id
  | kept same length measured settled =>
      rw [same.tree]
      exact found

end BackupStage

/-! ## Pruning a chunk -/

/-- There was a text at the path of the chunk and a backup was made or kept; then the file that
the path leads to was given a content. -/
def BackupJob.Overwritten (job : BackupJob) (start bench : Workbench) : Prop :=
  ∃ saved written location content,
    start.tree.lookup true job.chunk = .ok (location, .file job.text.toUTF8) ∧
    BackupStage.Ended job start saved (.ok written) ∧
    bench.tree = saved.tree.put location (.file content)

namespace PruneStage

/-- The next step writes to the chunk. -/
def overwrites : PruneStage → Bool
  | truncate _ _ => true
  | write _ _ _ => true
  | _ => false

/-- What the work on a chunk has done up to a stage. That a chunk which is passed over leaves all
files as they were is said only if the overwriting is safe from faults. -/
def Holds (job : PruneJob) (safe : Prop) (start bench : Workbench) : PruneStage → Prop
  | read => start.Same bench
  | call source => start.Same bench ∧ start.tree.readText job.chunk.path = .ok source
  | backup draft stage =>
    start.tree.readText job.chunk.path = .ok draft.before ∧
      stage.Holds (job.backupJob draft) start bench
  | truncate draft written =>
    start.tree.readText job.chunk.path = .ok draft.before ∧
      BackupStage.Ended (job.backupJob draft) start bench (.ok written)
  | write draft _ _ => (job.backupJob draft).Overwritten start bench
  | done (.pruned _) => ∃ draft, (job.backupJob draft).Overwritten start bench
  | done (.skipped _) => safe → start.Same bench

variable {job : PruneJob} {safe : Prop} {start bench : Workbench} {stage : PruneStage}

theorem holds_judge {source : String} (answer : Except Failure String)
    (same : start.Same bench) (read : start.tree.readText job.chunk.path = .ok source) :
    (job.judge source answer).Holds job safe start bench := by
  unfold PruneJob.judge
  repeat' split
  all_goals first | exact fun _ => same | exact ⟨read, same⟩

/-- Each step keeps what the stages say, when no fault hits an overwriting that is to be safe. The
overwriting does not fail by itself. -/
theorem step_holds (fault : Option OsError)
    (allowed : safe → fault = none ∨ stage.overwrites = false)
    (holds : stage.Holds job safe start bench) :
    (stage.step job fault bench).2.Holds job safe start (stage.step job fault bench).1 := by
  cases stage with
  | read =>
      have same : start.Same bench := holds
      simp only [step]
      split
      · exact fun _ => same
      · exact fun _ => same
      next source read => exact ⟨same, same.tree ▸ read⟩
  | call source =>
      obtain ⟨same, read⟩ := holds
      have recorded : start.Same (bench.recordCall ⟨source, job.config⟩) := ⟨same.tree, same.staged⟩
      exact holds_judge _ recorded read
  | backup draft stage =>
      obtain ⟨read, holds⟩ := holds
      rw [step]
      split
      next written ended =>
        cases stage with
        | done result =>
            cases ended
            exact ⟨read, holds⟩
        | _ => cases ended
      next failure ended =>
        cases stage with
        | done result =>
            cases ended
            cases holds with
            | failed same => exact fun _ => same
        | _ => cases ended
      next running => exact ⟨read, BackupStage.step_holds fault holds⟩
  | truncate draft written =>
      obtain ⟨read, ended⟩ := holds
      obtain ⟨location, found⟩ := FileTree.lookup_of_readText read
      have there := FileTree.writeFile_of_lookup (ended.lookup_chunk found) .empty
      rw [step]
      split
      next after emptied =>
        obtain ⟨tree, written, rfl⟩ := exists_of_map_eq_ok (eq_ok_of_underFault emptied)
        rw [show bench.tree.writeFile job.chunk.path .empty = _ from there] at written
        cases written
        exact ⟨bench, _, location, .empty, found, ended, rfl⟩
      next cause refused =>
        intro isSafe
        rcases allowed isSafe with rfl | no
        · rw [underFault, Workbench.truncate,
            show bench.tree.writeFile job.chunk.path .empty = _ from there] at refused
          cases refused
        · cases no
  | write draft written pieces =>
      cases pieces with
      | nil => exact ⟨draft, holds⟩
      | cons piece rest =>
          obtain ⟨saved, made, location, content, found, ended, shape⟩ := holds
          have kept := FileTree.lookup_put
            (FileTree.lookup_eq_ok_iff.mp (ended.lookup_chunk found)) (.file _) content
          rw [← shape] at kept
          have there := FileTree.appendFile_of_lookup kept piece
          rw [step]
          split
          next after appended =>
            obtain ⟨tree, grown, rfl⟩ := exists_of_map_eq_ok (eq_ok_of_underFault appended)
            rw [show bench.tree.appendFile job.chunk.path piece = _ from there] at grown
            cases grown
            refine ⟨saved, made, location, content ++ piece, found, ended, ?_⟩
            rw [shape, FileTree.put_put]
          next cause refused =>
            intro isSafe
            rcases allowed isSafe with rfl | no
            · rw [underFault, Workbench.append,
                show bench.tree.appendFile job.chunk.path piece = _ from there] at refused
              cases refused
            · cases no
  | done outcome => exact holds

end PruneStage

/-! ## Whole courses -/

/-- A step of the work on a chunk, with a fault only where one may hit it. -/
inductive PruneJob.Moves (job : PruneJob) (exposed : PruneStage → Prop) :
    Workbench × PruneStage → Workbench × PruneStage → Prop
  | step (bench : Workbench) (stage : PruneStage) (fault : Option OsError)
      (allowed : fault = none ∨ exposed stage) :
      Moves job exposed (bench, stage) (stage.step job fault bench)

/-- Any number of steps of the work on a chunk. -/
def PruneJob.Course (job : PruneJob) (exposed : PruneStage → Prop) :
    Workbench × PruneStage → Workbench × PruneStage → Prop :=
  Relation.ReflTransGen (job.Moves exposed)

section Courses

variable {job : PruneJob} {exposed : PruneStage → Prop} {start : Workbench} {safe : Prop}

theorem PruneJob.Course.holds {state goal : Workbench × PruneStage}
    (course : job.Course exposed state goal) (holds : state.2.Holds job safe start state.1)
    (guarded : safe → ∀ stage, exposed stage → stage.overwrites = false) :
    goal.2.Holds job safe start goal.1 := by
  induction course with
  | refl => exact holds
  | tail before move inductionHypothesis =>
      obtain ⟨bench, stage, fault, allowed⟩ := move
      exact PruneStage.step_holds fault (fun isSafe => allowed.imp_right (guarded isSafe stage))
        inductionHypothesis

/-- Running the stages is a course without faults. -/
theorem PruneStage.course_run (job : PruneJob) (exposed : PruneStage → Prop) (bench : Workbench)
    (stage : PruneStage) :
    job.Course exposed (bench, stage) ((stage.run job bench).1, .done (stage.run job bench).2) := by
  induction bench, stage using PruneStage.run.induct job with
  | case1 bench stage outcome ended =>
      rw [run_of_outcome ended]
      cases stage with
      | done other =>
          cases ended
          exact .refl
      | _ => cases ended
  | case2 bench stage running next inductionHypothesis =>
      rw [run_of_running running]
      exact .head (.step bench stage none (Or.inl rfl)) inductionHypothesis

theorem Chunk.holds_begin (merged : MergedUsage) (settings : PruneSettings) (chunk : Chunk)
    (safe : Prop) (start : Workbench) :
    (chunk.begin merged settings).2.Holds (chunk.begin merged settings).1 safe start start := by
  have same : start.Same start := ⟨rfl, rfl⟩
  rcases chunk.begin_cases merged settings with begun | ⟨cause, reason, begun⟩
  · rw [begun]
    exact same
  · rw [begun]
    exact fun _ => same

/-- A chunk that is passed over leaves all files as they were, whatever stands in the tree and
whatever the engine answers: with any faults on the way to the overwriting, and when the chunk is
pruned without faults. -/
theorem Chunk.same_of_skipped (merged : MergedUsage) (settings : PruneSettings) (chunk : Chunk)
    (start : Workbench) (skip : Skip) :
    (∀ after, (chunk.begin merged settings).1.Course (fun stage => stage.overwrites = false)
        (start, (chunk.begin merged settings).2) (after, .done (.skipped skip)) →
      start.Same after) ∧
    ((chunk.prune merged settings start).2 = .skipped skip →
      start.Same (chunk.prune merged settings start).1) := by
  have begun := chunk.holds_begin merged settings True start
  constructor
  · intro after course
    exact course.holds begun (fun _ _ apart => apart) trivial
  · intro skipped
    have course := PruneStage.course_run (chunk.begin merged settings).1 (fun _ => False) start
      (chunk.begin merged settings).2
    have ended : ((chunk.begin merged settings).2.run (chunk.begin merged settings).1 start).2 =
      .skipped skip := skipped
    rw [ended] at course
    exact course.holds begun (fun _ _ no => no.elim) trivial

end Courses

/-! ## A staged file that cannot be created -/

/-- The work on the single chunk. -/
def loneJob : PruneJob := ((loneChunk loneSite).begin loneUsage steadySettings).1

def loneDraft : Draft := ⟨"a", "x", .silent⟩

theorem step_read_loneJob :
    PruneStage.read.step loneJob none (.ofTree (loneTree "a".toUTF8)) =
      (.ofTree (loneTree "a".toUTF8), .call "a") := by
  have found : (Workbench.ofTree (loneTree "a".toUTF8)).tree.readText loneJob.chunk.path =
    .ok "a" := readText_loneTree "a"
  simp only [PruneStage.step, found]

theorem verdict_loneJob : loneJob.verdict "a" (.ok sourceAnswer) = .ok loneDraft := by
  simp [loneJob, PruneJob.verdict, read?_sourceAnswer, PruneSettings.accepts, Chunk.begin,
    steadySettings, loneDraft]

theorem step_call_loneJob (bench : Workbench) :
    (PruneStage.call "a").step loneJob none bench =
      (bench.recordCall ⟨"a", loneJob.config⟩, .backup loneDraft .create) := by
  have judged := loneJob.judge_eq_verdict "a" (.ok sourceAnswer)
  rw [verdict_loneJob] at judged
  exact congrArg (Prod.mk _) judged

/-- In the tree with one chunk the engine gives an answer, but no staged file can be created: the
chunk is passed over. -/
theorem same_of_skipped_loneTree :
    ∃ skip after, ((loneChunk loneSite).begin loneUsage steadySettings).1.Course
        (fun stage => stage.overwrites = false)
        (.ofTree (loneTree "a".toUTF8), ((loneChunk loneSite).begin loneUsage steadySettings).2)
        (after, .done (.skipped skip)) ∧
      (Workbench.ofTree (loneTree "a".toUTF8)).Same after := by
  let failure : Failure := .stageBackup (loneJob.backupJob loneDraft).directory .notFound
  let skip : Skip := ⟨"app", "a.js", "library", .failed, failure.summary⟩
  let after := (Workbench.ofTree (loneTree "a".toUTF8)).recordCall ⟨"a", loneJob.config⟩
  have exposed : ∀ stage : PruneStage, stage.overwrites = false → ∀ bench fault,
      loneJob.Moves (fun stage => stage.overwrites = false) (bench, stage)
        (stage.step loneJob fault bench) :=
    fun stage apart bench fault => .step bench stage fault (Or.inr apart)
  have opened := exposed .read rfl (.ofTree (loneTree "a".toUTF8)) none
  rw [step_read_loneJob] at opened
  have answered := exposed (.call "a") rfl (.ofTree (loneTree "a".toUTF8)) none
  rw [step_call_loneJob] at answered
  have failed := exposed (.backup loneDraft .create) rfl after (some .notFound)
  have ended := exposed (.backup loneDraft (.done (.error failure))) rfl after none
  have course : loneJob.Course (fun stage => stage.overwrites = false)
      (.ofTree (loneTree "a".toUTF8), .read) (after, .done (.skipped skip)) :=
    .head opened (.head answered (.head failed (.single ended)))
  rw [← begin_loneChunk keepFlags_loneUsage steadySettings loneSite] at course
  exact ⟨skip, after, course,
    (Chunk.same_of_skipped loneUsage steadySettings (loneChunk loneSite) _ skip).1 after course⟩

end ChunkPrune
