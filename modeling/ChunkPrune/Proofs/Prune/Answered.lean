import ChunkPrune.Proofs.Engine.Answers
import ChunkPrune.Proofs.Prune.Overwrite

/-!
# What an answer of the engine leads to

A chunk is read, and the engine answers. New source that it offers is written, unless validation
is against it or the backup cannot be made. In all other cases the files stay as they were, and
the reason is told by the answer.
-/

namespace ChunkPrune

namespace PruneJob

def answer (job : PruneJob) (source : String) : Except Failure String :=
  job.settings.engine ⟨source, job.config⟩

/-- The engine gave a text, which was read as a value. -/
def Replies (job : PruneJob) (source : String) (json : Json) : Prop :=
  ∃ text, job.answer source = .ok text ∧ Json.read? text = some json

/-- The answer is to be applied: it offers new source, and this is a program where that is asked
for, or the old source is none either. -/
structure Applies (job : PruneJob) (source : String) (json : Json) (after : String) : Prop where
  replies : job.Replies source json
  offers : Answer.Offers json after
  valid : job.settings.validate = true → job.settings.parses job.chunk.path after = true ∨
    job.settings.parses job.chunk.path source = false

/-- The course came through a backup that could not be made. -/
def FailsToKeep (job : PruneJob) (exposed : PruneStage → Prop)
    (start goal : Workbench × PruneStage) : Prop :=
  ∃ saved draft failure,
    job.Course exposed start (saved, .backup draft (.done (.error failure))) ∧
    job.Course exposed (saved, .backup draft (.done (.error failure))) goal

/-- What came of an answer about a source, when the backup was made or not. -/
structure Answered (job : PruneJob) (source : String) (unkept : Prop) (start after : Workbench)
    (outcome : Outcome) : Prop where
  failed_iff : (∃ skip, outcome = .skipped skip ∧ skip.cause = .failed) ↔
    (∃ failure, job.answer source = .error failure) ∨
    (∃ text, job.answer source = .ok text ∧ Json.read? text = none) ∨
    (∃ json new, job.Applies source json new) ∧ unkept
  pruned_iff : (∃ result, outcome = .pruned result) ↔
    (∃ json new, job.Applies source json new) ∧ ¬ unkept
  pruned : ∀ result, outcome = .pruned result → ∃ json new, job.Applies source json new ∧
    after.tree.readText job.chunk.path = .ok new ∧ result.sizeBefore = source.toUTF8.size ∧
    result.sizeAfter = new.toUTF8.size ∧ result.prune.Tells json
  declined : ∀ skip, outcome = .skipped skip → skip.cause ≠ .failed →
    skip.cause = .notApplied ∧ ∃ json, job.Replies source json ∧
      ((∃ new, Answer.Offers json new) ∧ skip.reason = "optimized output failed to parse" ∨
        (∀ new, ¬ Answer.Offers json new) ∧ Answer.Declines (json.get? "error") skip.reason)
  unchanged : ∀ skip, outcome = .skipped skip → start.Same after

theorem accepts_iff {job : PruneJob} {source new : String} :
    job.settings.accepts job.chunk.path source new = true ↔
      (job.settings.validate = true → job.settings.parses job.chunk.path new = true ∨
        job.settings.parses job.chunk.path source = false) := by
  cases validate : job.settings.validate <;> simp [PruneSettings.accepts, validate]

/-- What an answer is judged to be. -/
inductive Judged (job : PruneJob) (source : String) : PruneStage → Prop
  | refused (failure : Failure) (given : job.answer source = .error failure) :
      Judged job source (.done (.ofFailure job.chunk failure))
  | unread (text : String) (given : job.answer source = .ok text)
      (unread : Json.read? text = none) :
      Judged job source (.done (.ofFailure job.chunk .answerNotJson))
  | invalid (json : Json) (new : String) (replies : job.Replies source json)
      (offers : Answer.Offers json new) (refused : ¬ job.Applies source json new) :
      Judged job source (.done (.skip job.chunk .notApplied unparsedReason))
  | declined (json : Json) (reason : String) (replies : job.Replies source json)
      (nothing : ∀ new, ¬ Answer.Offers json new)
      (declines : Answer.Declines (json.get? "error") reason) :
      Judged job source (.done (.skip job.chunk .notApplied reason))
  | applied (json : Json) (new : String) (prune : ModuleReport)
      (applies : job.Applies source json new) (tells : prune.Tells json) :
      Judged job source (.backup ⟨source, new, prune⟩ .create)

theorem judged_judge (job : PruneJob) (source : String) :
    job.Judged source (job.judge source (job.answer source)) := by
  cases given : job.answer source with
  | error failure => exact .refused failure given
  | ok text =>
      cases read : Json.read? text with
      | none =>
          rw [judge, Answer.read?, read]
          exact .unread text given read
      | some json =>
          have replies : job.Replies source json := ⟨text, given, read⟩
          by_cases offered : ∃ new, Answer.Offers json new
          · obtain ⟨new, offers⟩ := offered
            rw [judge, Answer.read?, read, Option.map_some, Answer.ofJson_of_offers offers]
            by_cases accepted : job.settings.accepts job.chunk.path source new = true
            · simp only [if_pos accepted]
              exact .applied json new _ ⟨replies, offers, accepts_iff.mp accepted⟩
                (ModuleReport.tells_report json)
            · simp only [if_neg accepted]
              exact .invalid json new replies offers fun applies =>
                accepted (accepts_iff.mpr applies.valid)
          · have nothing : ∀ new, ¬ Answer.Offers json new := not_exists.mp offered
            obtain ⟨reason, kind, declines⟩ := Answer.declines_ofError (json.get? "error")
            rw [judge, Answer.read?, read, Option.map_some, Answer.ofJson_of_not_offers nothing]
            rcases kind with failed | skipped
            · rw [failed]
              exact .declined json reason replies nothing declines
            · rw [skipped]
              exact .declined json reason replies nothing declines

/-- An answer is read as one value. -/
theorem Replies.unique {job : PruneJob} {source : String} {json other : Json}
    (replies : job.Replies source json) (again : job.Replies source other) : json = other := by
  obtain ⟨text, given, read⟩ := replies
  obtain ⟨same, givenAgain, readAgain⟩ := again
  cases given.symm.trans givenAgain
  exact Option.some.inj (read.symm.trans readAgain)

end PruneJob

/-! ## From the draft to the end -/

namespace PruneStage

/-- A backup is being made. -/
def backsUp : PruneStage → Prop
  | backup _ _ => True
  | _ => False

/-- What the applying of a draft has done up to a stage. When it failed, it did so in a state in
which the backup could not be made. -/
def Applying (job : PruneJob) (draft : Draft) (unkept : Workbench → Failure → Prop)
    (start bench : Workbench) : PruneStage → Prop
  | backup other stage => other = draft ∧ stage.Holds (job.backupJob draft) start bench
  | truncate other written =>
    other = draft ∧ BackupStage.Ended (job.backupJob draft) start bench (.ok written)
  | write other _ pieces =>
    other = draft ∧ ∃ location content,
      bench.tree.lookup true job.chunk.path = .ok (location, .file content) ∧
      pieces.foldl (· ++ ·) content = draft.after.toUTF8
  | done outcome =>
    (∃ written, outcome = job.pruned draft written ∧
      bench.tree.readText job.chunk.path = .ok draft.after) ∨
    ∃ failure, outcome = .ofFailure job.chunk failure ∧ unkept bench failure
  | read => False
  | call _ => False

variable {job : PruneJob} {draft : Draft} {unkept : Workbench → Failure → Prop}
  {start bench : Workbench} {stage : PruneStage} {location : Location}

/-- Each step goes on with applying the draft, when faults hit only the making of the backup. -/
theorem step_applying (found : start.tree.lookup true job.chunk.path =
      .ok (location, .file draft.before.toUTF8))
    (fault : Option OsError) (allowed : fault = none ∨ stage.backsUp)
    (failing : ∀ failure, stage = .backup draft (.done (.error failure)) → unkept bench failure)
    (applying : stage.Applying job draft unkept start bench) :
    (stage.step job fault bench).2.Applying job draft unkept start
      (stage.step job fault bench).1 := by
  cases stage with
  | read => exact applying.elim
  | call source => exact applying.elim
  | backup other stage =>
      obtain ⟨rfl, holds⟩ := applying
      rw [step]
      split
      next written ended =>
        cases stage with
        | done result =>
            cases ended
            exact ⟨rfl, holds⟩
        | _ => cases ended
      next failure ended =>
        cases stage with
        | done result =>
            cases ended
            exact Or.inr ⟨failure, rfl, failing failure rfl⟩
        | _ => cases ended
      next running => exact ⟨rfl, BackupStage.step_holds fault holds⟩
  | truncate other written =>
      obtain ⟨rfl, ended⟩ := applying
      obtain rfl : fault = none := allowed.resolve_right id
      have stands := ended.lookup_chunk found
      have emptied : bench.truncate job.chunk.path =
          .ok { bench with tree := bench.tree.put location (.file .empty) } := by
        rw [Workbench.truncate]
        exact congrArg (Except.map _) (FileTree.writeFile_of_lookup stands .empty)
      have kept := FileTree.lookup_put (FileTree.lookup_eq_ok_iff.mp stands) (.file _) .empty
      rw [step, emptied]
      exact ⟨rfl, location, .empty, kept, job.settings.cutting.joined _⟩
  | write other written pieces =>
      obtain ⟨rfl, there, content, stands, whole⟩ := applying
      obtain rfl : fault = none := allowed.resolve_right id
      cases pieces with
      | nil =>
          refine Or.inl ⟨written, rfl, ?_⟩
          rw [FileTree.readText_eq_ok_iff, FileTree.readBytes_eq_ok_iff]
          exact ⟨there, by rw [← whole]; exact stands⟩
      | cons piece rest =>
          have grown : bench.append job.chunk.path piece =
              .ok { bench with tree := bench.tree.put there (.file (content ++ piece)) } := by
            rw [Workbench.append]
            exact congrArg (Except.map _) (FileTree.appendFile_of_lookup stands piece)
          have kept := FileTree.lookup_put (FileTree.lookup_eq_ok_iff.mp stands) (.file _)
            (content ++ piece)
          rw [step, grown]
          exact ⟨rfl, there, content ++ piece, kept, whole⟩
  | done outcome => exact applying

end PruneStage

/-! ## Courses -/

namespace PruneJob

variable {job : PruneJob} {exposed : PruneStage → Prop} {bench : Workbench} {stage : PruneStage}
  {goal : Workbench × PruneStage}

/-- A course goes on with the next step, which no fault hits where none may. -/
theorem Course.next (course : job.Course exposed (bench, stage) goal)
    (further : (bench, stage) ≠ goal) (steady : ¬ exposed stage) :
    job.Course exposed (stage.step job none bench) goal := by
  rcases course.cases_head with same | ⟨state, move, rest⟩
  · exact absurd same further
  · cases move with
    | step bench stage fault allowed =>
        rcases allowed with rfl | hit
        · exact rest
        · exact absurd hit steady

theorem Course.eq_of_done {outcome : Outcome}
    (course : job.Course exposed (bench, .done outcome) goal) : goal = (bench, .done outcome) := by
  induction course with
  | refl => rfl
  | tail before move inductionHypothesis =>
      cases inductionHypothesis
      cases move with
      | step bench stage fault allowed => rfl

/-- A draft is applied, up to the end of a course or to a backup that cannot be made. -/
theorem Course.applying {draft : Draft} {location : Location}
    (course : job.Course exposed (bench, .backup draft .create) goal)
    (only : ∀ stage, exposed stage → stage.backsUp)
    (found : bench.tree.lookup true job.chunk.path =
      .ok (location, .file draft.before.toUTF8)) :
    goal.2.Applying job draft
      (fun saved failure => job.Course exposed (bench, .backup draft .create)
        (saved, .backup draft (.done (.error failure)))) bench goal.1 := by
  induction course with
  | refl => exact ⟨rfl, rfl, rfl⟩
  | tail before move inductionHypothesis =>
      cases move with
      | step state stage fault allowed =>
          refine PruneStage.step_applying found fault (allowed.imp_right (only stage)) ?_
            inductionHypothesis
          intro failure same
          rw [same] at before
          exact before

/-- A course through a backup that could not be made ends with a failure. -/
theorem FailsToKeep.failed {start : Workbench × PruneStage} {outcome : Outcome}
    (unkept : job.FailsToKeep exposed start (bench, .done outcome)) :
    ∃ failure, outcome = .ofFailure job.chunk failure := by
  obtain ⟨saved, draft, failure, -, course⟩ := unkept
  rcases course.cases_head with same | ⟨state, move, rest⟩
  · cases same
  · cases move with
    | step bench stage fault allowed =>
        cases Course.eq_of_done rest
        exact ⟨failure, rfl⟩

/-! ## The three ends -/

section Ends

variable {source : String} {unkept : Prop} {start after : Workbench}

/-- Where there is a reply, neither the engine nor the reading of its text failed. -/
theorem Replies.resolve {json : Json} {other : Prop} (replies : job.Replies source json)
    (failed : (∃ failure, job.answer source = .error failure) ∨
      (∃ text, job.answer source = .ok text ∧ Json.read? text = none) ∨ other) : other := by
  obtain ⟨text, given, read⟩ := replies
  rcases failed with ⟨failure, refused⟩ | ⟨same, answered, unread⟩ | other
  · cases given.symm.trans refused
  · cases given.symm.trans answered
    cases read.symm.trans unread
  · exact other

theorem answered_of_failure (failure : Failure) (same : start.Same after)
    (failed : (∃ failure, job.answer source = .error failure) ∨
      (∃ text, job.answer source = .ok text ∧ Json.read? text = none) ∨
      (∃ json new, job.Applies source json new) ∧ unkept) :
    job.Answered source unkept start after (.ofFailure job.chunk failure) := by
  refine ⟨iff_of_true ⟨_, rfl, rfl⟩ failed, iff_of_false ?_ ?_, nofun, ?_, fun _ _ => same⟩
  · rintro ⟨result, pruned⟩
    cases pruned
  · rintro ⟨⟨json, new, applies⟩, kept⟩
    exact kept (applies.replies.resolve failed).2
  · intro skip skipped other
    cases skipped
    exact absurd rfl other

theorem answered_of_declined {json : Json} {reason : String} (same : start.Same after)
    (replies : job.Replies source json) (keeps : ∀ new, ¬ job.Applies source json new)
    (told : (∃ new, Answer.Offers json new) ∧ reason = "optimized output failed to parse" ∨
      (∀ new, ¬ Answer.Offers json new) ∧ Answer.Declines (json.get? "error") reason) :
    job.Answered source unkept start after (.skip job.chunk .notApplied reason) := by
  have never : ¬ ∃ json new, job.Applies source json new := by
    rintro ⟨other, new, applies⟩
    obtain rfl := applies.replies.unique replies
    exact keeps new applies
  refine ⟨iff_of_false ?_ fun failed => never (replies.resolve failed).1,
    iff_of_false ?_ fun both => never both.1, nofun, ?_, fun _ _ => same⟩
  · rintro ⟨skip, skipped, failed⟩
    cases skipped
    cases failed
  · rintro ⟨result, pruned⟩
    cases pruned
  · intro skip skipped _
    cases skipped
    exact ⟨rfl, json, replies, told⟩

theorem answered_of_applied {json : Json} {new : String} {prune : ModuleReport} {written : Bool}
    (applies : job.Applies source json new) (tells : prune.Tells json) (kept : ¬ unkept)
    (read : after.tree.readText job.chunk.path = .ok new) :
    job.Answered source unkept start after (job.pruned ⟨source, new, prune⟩ written) := by
  refine ⟨iff_of_false ?_ fun failed => kept (applies.replies.resolve failed).2,
    iff_of_true ⟨_, rfl⟩ ⟨⟨json, new, applies⟩, kept⟩, ?_, nofun, nofun⟩
  · rintro ⟨skip, skipped, -⟩
    cases skipped
  · intro result pruned
    cases pruned
    exact ⟨json, new, applies, read, rfl, rfl, tells⟩

/-- A course that goes on after the answer starts with reading the chunk and asking the engine. -/
theorem Course.asked (only : ∀ stage, exposed stage → stage.backsUp)
    (read : start.tree.readText job.chunk.path = .ok source)
    (further : goal.2 ≠ .read ∧ ∀ source, goal.2 ≠ .call source)
    (course : job.Course exposed (start, .read) goal) :
    job.Course exposed (start, .read)
        (start.recordCall ⟨source, job.config⟩, job.judge source (job.answer source)) ∧
      job.Course exposed
        (start.recordCall ⟨source, job.config⟩, job.judge source (job.answer source)) goal := by
  have opened : PruneStage.read.step job none start = (start, .call source) := by
    simp only [PruneStage.step, read]
  have first : job.Moves exposed (start, .read) (PruneStage.read.step job none start) :=
    .step start .read none (Or.inl rfl)
  have rest := course.next (fun same => further.1 (congrArg Prod.snd same).symm) (only .read)
  rw [opened] at first rest
  exact ⟨.head first (.single (.step start (.call source) none (Or.inl rfl))),
    rest.next (fun same => further.2 source (congrArg Prod.snd same).symm) (only (.call source))⟩

/-- A course through reading, the answer and whatever it leads to. -/
theorem Course.answered {outcome : Outcome} (only : ∀ stage, exposed stage → stage.backsUp)
    (read : start.tree.readText job.chunk.path = .ok source)
    (course : job.Course exposed (start, .read) (after, .done outcome)) :
    job.Answered source (job.FailsToKeep exposed (start, .read) (after, .done outcome)) start after
      outcome := by
  have same : ∀ skip, outcome = .skipped skip → start.Same after := by
    rintro skip rfl
    have begun : PruneStage.read.Holds job True start start := ⟨rfl, rfl⟩
    refine course.holds begun (fun _ stage hit => ?_) trivial
    cases stage with
    | backup draft stage => rfl
    | _ => exact (only _ hit).elim
  -- the answer settles all ends but that of a draft, which depends on its backup
  obtain ⟨asked, rest⟩ := course.asked only read ⟨by simp, by simp⟩
  have judged := job.judged_judge source
  generalize job.judge source (job.answer source) = stage at asked rest judged
  cases judged with
  | refused failure given =>
      cases Course.eq_of_done rest
      exact answered_of_failure failure (same _ rfl) (Or.inl ⟨failure, given⟩)
  | unread text given unread =>
      cases Course.eq_of_done rest
      exact answered_of_failure _ (same _ rfl) (Or.inr (Or.inl ⟨text, given, unread⟩))
  | invalid json new replies offers refused =>
      cases Course.eq_of_done rest
      refine answered_of_declined (same _ rfl) replies (fun other applies => ?_)
        (Or.inl ⟨⟨new, offers⟩, rfl⟩)
      rw [applies.offers.unique offers] at applies
      exact refused applies
  | declined json reason replies nothing declines =>
      cases Course.eq_of_done rest
      exact answered_of_declined (same _ rfl) replies
        (fun new applies => nothing new applies.offers) (Or.inr ⟨nothing, declines⟩)
  | applied json new prune applies tells =>
      obtain ⟨location, found⟩ := FileTree.lookup_of_readText read
      rcases rest.applying only found with ⟨written, rfl, readNew⟩ | ⟨failure, rfl, unkept⟩
      · refine answered_of_applied applies tells (fun unkept => ?_) readNew
        obtain ⟨failure, failed⟩ := unkept.failed
        cases failed
      · exact answered_of_failure failure (same _ rfl) (Or.inr (Or.inr ⟨⟨json, new, applies⟩,
          after, _, failure, asked.trans unkept, .single (.step after _ none (Or.inl rfl))⟩))

end Ends

end PruneJob

/-! ## Without faults -/

namespace BackupStage

variable {job : BackupJob} {bench : Workbench} {stage : BackupStage}

theorem run_of_result {result : BackupResult} (ended : stage.result? = some result) :
    stage.run job bench = (bench, result) := by
  rw [run]
  split
  next found => rw [ended] at found; cases found; rfl
  next running => rw [ended] at running; cases running

theorem run_of_unfinished (running : stage.result? = none) :
    stage.run job bench =
      (stage.step job none bench).2.run job (stage.step job none bench).1 := by
  rw [run]
  split
  next found => rw [running] at found; cases found
  next => rfl

end BackupStage

namespace PruneStage

variable {job : PruneJob} {draft : Draft} {bench : Workbench} {stage : PruneStage}
  {ended : Workbench × BackupResult}

/-- The making of the backup of a draft goes on to an end, or it has ended. -/
def Backing (job : PruneJob) (draft : Draft) (ended : Workbench × BackupResult)
    (bench : Workbench) : PruneStage → Prop
  | backup other stage => other = draft ∧ stage.run (job.backupJob draft) bench = ended
  | read => False
  | call _ => False
  | _ => True

theorem step_backing (backing : stage.Backing job draft ended bench) :
    (stage.step job none bench).2.Backing job draft ended (stage.step job none bench).1 := by
  cases stage with
  | read => exact backing.elim
  | call source => exact backing.elim
  | backup other stage =>
      obtain ⟨rfl, runs⟩ := backing
      rw [step]
      split
      · trivial
      · trivial
      next running =>
        rw [BackupStage.run_of_unfinished running] at runs
        exact ⟨rfl, runs⟩
  | truncate other written =>
      rw [step]
      split <;> trivial
  | write other written pieces =>
      cases pieces with
      | nil => trivial
      | cons piece rest =>
          rw [step]
          split <;> trivial
  | done outcome => trivial

/-- A backup that is being made is made to its end, before anything else is done. -/
theorem run_backup (job : PruneJob) (draft : Draft) (bench : Workbench) (stage : BackupStage) :
    (backup draft stage).run job bench =
      (backup draft (.done (stage.run (job.backupJob draft) bench).2)).run job
        (stage.run (job.backupJob draft) bench).1 := by
  induction bench, stage using BackupStage.run.induct (job.backupJob draft) with
  | case1 bench stage result ended =>
      rw [BackupStage.run_of_result ended]
      cases stage with
      | done other =>
          cases ended
          rfl
      | _ => cases ended
  | case2 bench stage running next inductionHypothesis =>
      have step : (backup draft stage).step job none bench = (next.1, backup draft next.2) := by
        rw [step]
        split
        next found => rw [running] at found; cases found
        next found => rw [running] at found; cases found
        next => rfl
      rw [run_of_running rfl, step, BackupStage.run_of_unfinished running]
      exact inductionHypothesis

end PruneStage

namespace PruneJob

variable {job : PruneJob} {source : String} {start : Workbench}

/-- The making of a backup, without faults. -/
def keeping (job : PruneJob) (start : Workbench) (source : String) : Workbench × BackupResult :=
  BackupStage.create.run ⟨job.chunk.path, source, job.settings.cutting⟩
    (start.recordCall ⟨source, job.config⟩)

theorem Applies.exists_judge {json : Json} {new : String} (applies : job.Applies source json new) :
    ∃ prune, job.judge source (job.answer source) = .backup ⟨source, new, prune⟩ .create := by
  obtain ⟨⟨text, given, read⟩, offers, valid⟩ := applies
  rw [given, judge, Answer.read?, read, Option.map_some, Answer.ofJson_of_offers offers]
  exact ⟨_, if_pos (accepts_iff.mpr valid)⟩

theorem Course.backing {draft : Draft} {ended : Workbench × BackupResult} {bench : Workbench}
    {stage : PruneStage} {goal : Workbench × PruneStage}
    (course : job.Course (fun _ => False) (bench, stage) goal)
    (backing : stage.Backing job draft ended bench) : goal.2.Backing job draft ended goal.1 := by
  induction course with
  | refl => exact backing
  | tail before move inductionHypothesis =>
      cases move with
      | step bench stage fault allowed =>
          obtain rfl : fault = none := allowed.resolve_right id
          exact PruneStage.step_backing inductionHypothesis

/-- Without faults, a backup cannot be made in a course when its making ends with a failure. -/
theorem FailsToKeep.keeping {json : Json} {new : String} {goal : Workbench × PruneStage}
    (read : start.tree.readText job.chunk.path = .ok source)
    (applies : job.Applies source json new)
    (unkept : job.FailsToKeep (fun _ => False) (start, .read) goal) :
    ∃ failure, (job.keeping start source).2 = .error failure := by
  obtain ⟨saved, draft, failure, course, -⟩ := unkept
  obtain ⟨prune, judged⟩ := applies.exists_judge
  obtain ⟨-, rest⟩ := course.asked (fun _ no => no.elim) read ⟨by simp, by simp⟩
  rw [judged] at rest
  have begun : (PruneStage.backup ⟨source, new, prune⟩ .create).Backing job ⟨source, new, prune⟩
      (job.keeping start source) (start.recordCall ⟨source, job.config⟩) := ⟨rfl, rfl⟩
  obtain ⟨rfl, runs⟩ := rest.backing begun
  rw [BackupStage.run_of_result rfl] at runs
  exact ⟨failure, by rw [← runs]⟩

/-- When the making of a backup ends with a failure, so does the run. -/
theorem run_read_of_failure {json : Json} {new : String} {failure : Failure}
    (read : start.tree.readText job.chunk.path = .ok source)
    (applies : job.Applies source json new)
    (failed : (job.keeping start source).2 = .error failure) :
    (PruneStage.read.run job start).2 = .ofFailure job.chunk failure := by
  obtain ⟨prune, judged⟩ := applies.exists_judge
  have opened : PruneStage.read.step job none start = (start, .call source) := by
    simp only [PruneStage.step, read]
  have asked : (PruneStage.call source).step job none start =
      (start.recordCall ⟨source, job.config⟩, .backup ⟨source, new, prune⟩ .create) :=
    congrArg (Prod.mk _) judged
  have kept : (BackupStage.create.run (job.backupJob ⟨source, new, prune⟩)
      (start.recordCall ⟨source, job.config⟩)).2 = .error failure := failed
  rw [PruneStage.run_of_running rfl, opened, PruneStage.run_of_running rfl, asked,
    PruneStage.run_backup, kept, PruneStage.run_of_running rfl]
  exact congrArg Prod.snd (PruneStage.run_of_outcome rfl)

theorem Answered.congr {unkept other : Prop} {after : Workbench} {outcome : Outcome}
    (answered : job.Answered source unkept start after outcome)
    (same : ∀ json new, job.Applies source json new → (unkept ↔ other)) :
    job.Answered source other start after outcome := by
  have agree : (∃ json new, job.Applies source json new) → (unkept ↔ other) := by
    rintro ⟨json, new, applies⟩
    exact same json new applies
  have fails := and_congr_right agree
  have keeps := and_congr_right fun applied => not_congr (agree applied)
  exact ⟨by rw [answered.failed_iff, fails], by rw [answered.pruned_iff, keeps], answered.pruned,
    answered.declined, answered.unchanged⟩

/-- A run without faults fails to keep the chunk just when the making of the backup does. -/
theorem answered_run (read : start.tree.readText job.chunk.path = .ok source) :
    job.Answered source (∃ failure, (job.keeping start source).2 = .error failure) start
      (PruneStage.read.run job start).1 (PruneStage.read.run job start).2 := by
  have answered := Course.answered (fun _ no => no.elim) read
    (PruneStage.course_run job (fun _ => False) start .read)
  refine answered.congr fun json new applies => ⟨fun unkept => unkept.keeping read applies, ?_⟩
  rintro ⟨failure, failed⟩
  have ended := run_read_of_failure read applies failed
  exact (applies.replies.resolve (answered.failed_iff.mp ⟨_, ended, rfl⟩)).2

end PruneJob

/-- Every answer about a chunk that is read is judged by what it says, whether faults hit the making
of the backup or the chunk is pruned without faults. -/
theorem Chunk.answered_of_readText {merged : MergedUsage} {settings : PruneSettings} {chunk : Chunk}
    {start : Workbench} {source : String}
    (reached : (chunk.begin merged settings).2 = .read)
    (read : start.tree.readText chunk.path = .ok source) :
    (∀ exposed : PruneStage → Prop, (∀ stage, exposed stage → stage.backsUp) →
      ∀ after outcome, (chunk.begin merged settings).1.Course exposed (start, .read)
          (after, .done outcome) →
        (chunk.begin merged settings).1.Answered source
          ((chunk.begin merged settings).1.FailsToKeep exposed (start, .read)
            (after, .done outcome)) start after outcome) ∧
    (chunk.begin merged settings).1.Answered source
      (∃ failure, ((chunk.begin merged settings).1.keeping start source).2 = .error failure)
      start (chunk.prune merged settings start).1 (chunk.prune merged settings start).2 := by
  refine ⟨fun exposed only after outcome course => course.answered only read, ?_⟩
  have run : chunk.prune merged settings start =
      PruneStage.read.run (chunk.begin merged settings).1 start := by
    rw [← reached]
    rfl
  rw [run]
  exact PruneJob.answered_run read

/-- The single chunk is read, and what comes of the answer is told. -/
theorem answered_loneChunk :
    ((loneChunk loneSite).begin loneUsage steadySettings).2 = .read ∧
      (Workbench.ofTree (loneTree "a".toUTF8)).tree.readText (loneChunk loneSite).path =
        .ok "a" ∧
      loneJob.Answered "a"
        (∃ failure, (loneJob.keeping (.ofTree (loneTree "a".toUTF8)) "a").2 = .error failure)
        (.ofTree (loneTree "a".toUTF8))
        ((loneChunk loneSite).prune loneUsage steadySettings (.ofTree (loneTree "a".toUTF8))).1
        ((loneChunk loneSite).prune loneUsage steadySettings
          (.ofTree (loneTree "a".toUTF8))).2 := by
  have reached := begin_loneChunk keepFlags_loneUsage steadySettings loneSite
  have read : (Workbench.ofTree (loneTree "a".toUTF8)).tree.readText (loneChunk loneSite).path =
      .ok "a" := readText_loneTree "a"
  exact ⟨reached, read, (Chunk.answered_of_readText reached read).2⟩

end ChunkPrune
