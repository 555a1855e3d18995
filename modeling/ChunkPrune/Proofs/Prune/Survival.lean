import ChunkPrune.Proofs.Prune.Crew
import ChunkPrune.Proofs.Prune.Order

/-!
# No chunk is lost

However the processes at a chunk take turns, whatever faults hit them and whenever they are
stopped: a chunk that had a text and no backup has both still, or its backup has the text.
-/

namespace ChunkPrune

namespace FileTree

variable {tree : FileTree} {path : Path} {directory : Location} {name : String}

theorem Leads.free (leads : tree.Leads path directory name) (linkFree : tree.LinkFree)
    (absent : tree.pathExists path = false) : tree.Free path := by
  cases refused : path.refusal? name with
  | some cause => exact Or.inr ⟨cause, leads.resolve_of_refused linkFree refused⟩
  | none =>
      have reaches := leads.reaches linkFree refused
      refine Or.inl ⟨_, reaches, ?_⟩
      cases there : tree.entry? (directory ++ [name]) with
      | none => rfl
      | some entry =>
          rw [pathExists, reaches.lookup there] at absent
          cases absent

end FileTree

/-- A chunk with a text, which is not empty, and without a backup. -/
structure Exposed (tree : FileTree) (path : Path) (text : String) (directory : Location)
    (name : String) : Prop where
  linkFree : tree.LinkFree
  leads : tree.Leads path directory name
  accepted : path.refusal? name = none
  chunk : tree.entry? (directory ++ [name]) = some (.file text.toUTF8)
  nonempty : text ≠ ""
  free : tree.Free (Chunk.backupPath path)

namespace Exposed

variable {tree : FileTree} {path : Path} {text : String} {directory : Location} {name : String}

theorem exists_of_readText (linkFree : tree.LinkFree) (read : tree.readText path = .ok text)
    (nonempty : text ≠ "") (absent : tree.pathExists (Chunk.backupPath path) = false) :
    ∃ directory name, Exposed tree path text directory name := by
  obtain ⟨location, found⟩ := FileTree.lookup_of_readText read
  obtain ⟨directory, name, leads, accepted, rfl, chunk⟩ := FileTree.exists_leads linkFree found
  have backup : tree.Leads (Chunk.backupPath path) directory (name ++ Chunk.backupSuffix) :=
    leads.append (by decide) (by decide)
  exact ⟨directory, name, linkFree, leads, accepted, chunk, nonempty,
    backup.free linkFree absent⟩

theorem leads_backup (exposed : Exposed tree path text directory name) :
    tree.Leads (Chunk.backupPath path) directory (name ++ Chunk.backupSuffix) :=
  exposed.leads.append (by decide) (by decide)

theorem reads (exposed : Exposed tree path text directory name) :
    tree.readText path = .ok text := by
  rw [(exposed.leads.reaches exposed.linkFree exposed.accepted).readText exposed.chunk,
    Text.fromUTF8?_eq_some_iff.mpr rfl]

/-- What reaches the place of the backup is not refused, and the place is beside the chunk. -/
theorem of_reaches_backup (exposed : Exposed tree path text directory name)
    {location : Location} (reaches : tree.Reaches (Chunk.backupPath path) location) :
    (Chunk.backupPath path).refusal? (name ++ Chunk.backupSuffix) = none ∧
      location = directory ++ [name ++ Chunk.backupSuffix] ∧ tree.entry? location = none := by
  have linkFree := exposed.linkFree
  have accepted : (Chunk.backupPath path).refusal? (name ++ Chunk.backupSuffix) = none := by
    cases refused : (Chunk.backupPath path).refusal? (name ++ Chunk.backupSuffix) with
    | none => rfl
    | some cause =>
        have resolved := reaches true
        rw [exposed.leads_backup.resolve_of_refused linkFree refused] at resolved
        cases resolved
  have beside := exposed.leads_backup.reaches linkFree accepted
  refine ⟨accepted, (reaches.eq_destination linkFree).trans (beside.eq_destination linkFree).symm,
    ?_⟩
  rcases exposed.free with ⟨other, reachesOther, vacant⟩ | ⟨cause, refused⟩
  · rwa [reaches.eq_destination linkFree, ← reachesOther.eq_destination linkFree]
  · have resolved := reaches true
    rw [refused] at resolved
    cases resolved

end Exposed

namespace Crew

/-- The locations of a chunk and of its backup. -/
def Beside (directory : Location) (name : String) (location : Location) : Prop :=
  location = directory ++ [name] ∨ location = directory ++ [name ++ Chunk.backupSuffix]

/-- There is no backup so far: no process has got beyond making one, and nothing is written. -/
structure Fresh (tree : FileTree) (path : Path) (text : String) (crew : Crew) : Prop where
  untouched : crew.bench.tree = tree
  early : ∀ worker ∈ crew.workers, worker.1.chunk.path = path ∧ worker.2.Early text crew.bench

/-- The backup has the text of the chunk, and no process is about to replace it. -/
structure Kept (tree : FileTree) (path : Path) (text : String) (directory : Location)
    (name : String) (crew : Crew) : Prop where
  accepted : (Chunk.backupPath path).refusal? (name ++ Chunk.backupSuffix) = none
  evolves : tree.Evolves (Beside directory name) crew.bench.tree
  backup : crew.bench.tree.entry? (directory ++ [name ++ Chunk.backupSuffix]) =
    some (.file text.toUTF8)
  settled : ∀ worker ∈ crew.workers, worker.1.chunk.path = path ∧ worker.2.replaces = false

variable {tree : FileTree} {path : Path} {text : String} {directory : Location} {name : String}
  {crew next : Crew}

/-! ## Before there is a backup -/

theorem Fresh.step (exposed : Exposed tree path text directory name)
    (fresh : crew.Fresh tree path text) (apart : crew.Apart) (taken : crew.Step path next) :
    next.Fresh tree path text ∨ next.Kept tree path text directory name := by
  cases taken with
  | @join bench workers chunk merged settings atPath =>
      refine Or.inl ⟨fresh.untouched, fun worker member => ?_⟩
      rcases List.mem_cons.mp member with rfl | member
      · exact ⟨atPath, PruneStage.early_begin merged settings chunk text bench⟩
      · exact fresh.early worker member
  | @work bench left right job stage engine fault =>
      obtain rfl : bench.tree = tree := fresh.untouched
      obtain ⟨rfl, early⟩ :=
        fresh.early (job, stage) (List.mem_append_right _ List.mem_cons_self)
      have moved :=
        PruneStage.step_early (job.withEngine engine) fault exposed.reads exposed.free early
      rcases moved with ⟨same, early⟩ | ⟨settled, location, reaches, published⟩
      · refine Or.inl ⟨same, fun worker member => ?_⟩
        rcases Worker.eq_or_mem_others member with rfl | member
        · exact ⟨rfl, early⟩
        · have before : worker ∈ left ++ (job, stage) :: right :=
            Worker.mem_of_mem_others member
          obtain ⟨atPath, otherEarly⟩ := fresh.early worker before
          have move := stage.step_move (job.withEngine engine) fault bench
          refine ⟨atPath, otherEarly.frame fun number owned => ?_⟩
          exact move.other_staged (apart.present worker before number owned)
            fun own => apart.others member number own owned
      · obtain ⟨accepted, rfl, vacant⟩ := exposed.of_reaches_backup reaches
        refine Or.inr ⟨accepted, ?_, ?_, fun worker member => ?_⟩
        · rw [published]
          exact .put (by simp) (Or.inr rfl) (by simp [vacant]) _
        · rw [published]
          exact (FileTree.entry?_of_ne_nil _ (by simp)).trans
            ((FileTree.entries_get?_put _ _ _ _).trans (if_pos rfl))
        · rcases Worker.eq_or_mem_others member with rfl | member
          · exact ⟨rfl, settled⟩
          · obtain ⟨atPath, otherEarly⟩ := fresh.early worker (Worker.mem_of_mem_others member)
            exact ⟨atPath, PruneStage.not_replaces_of_early otherEarly⟩
  | @scatter bench left right job draft written piece rest tree content blended =>
      exact absurd (fresh.early _ (List.mem_append_right _ List.mem_cons_self)).2 id
  | @stop bench left right worker =>
      exact Or.inl ⟨fresh.untouched, fun other member =>
        fresh.early other (Worker.mem_of_mem_others member)⟩

/-! ## Once there is a backup -/

namespace Kept

theorem reaches_chunk (exposed : Exposed tree path text directory name)
    (kept : crew.Kept tree path text directory name) :
    crew.bench.tree.Reaches path (directory ++ [name]) :=
  (exposed.leads.evolves kept.evolves).reaches (kept.evolves.linkFree exposed.linkFree)
    exposed.accepted

theorem reaches_backup (exposed : Exposed tree path text directory name)
    (kept : crew.Kept tree path text directory name) :
    crew.bench.tree.Reaches (Chunk.backupPath path)
      (directory ++ [name ++ Chunk.backupSuffix]) :=
  (exposed.leads_backup.evolves kept.evolves).reaches (kept.evolves.linkFree exposed.linkFree)
    kept.accepted

/-- Writing to the chunk and getting on without a replacement keeps the backup. -/
theorem go (kept : crew.Kept tree path text directory name)
    (evolves : crew.bench.tree.Evolves (Eq (directory ++ [name])) next.bench.tree)
    (settled : ∀ worker ∈ next.workers,
      worker ∈ crew.workers ∨ worker.1.chunk.path = path ∧ worker.2.replaces = false) :
    next.Kept tree path text directory name := by
  refine ⟨kept.accepted, kept.evolves.trans (evolves.mono fun location same => Or.inl same.symm),
    ?_, fun worker member => (settled worker member).elim (kept.settled worker) id⟩
  rw [evolves.entry?_eq, kept.backup]
  intro same
  have longer := congrArg String.length (List.cons.inj (List.append_cancel_left same)).1
  rw [String.length_append] at longer
  have suffix : Chunk.backupSuffix.length ≠ 0 := by decide
  omega

theorem step (exposed : Exposed tree path text directory name)
    (kept : crew.Kept tree path text directory name) (taken : crew.Step path next) :
    next.Kept tree path text directory name := by
  have reaches := kept.reaches_chunk exposed
  cases taken with
  | @join bench workers chunk merged settings atPath =>
      refine kept.go (.refl _ _) fun worker member => ?_
      rcases List.mem_cons.mp member with rfl | member
      · exact Or.inr ⟨atPath, PruneStage.replaces_begin merged settings chunk⟩
      · exact Or.inl member
  | @work bench left right job stage engine fault =>
      obtain ⟨rfl, settled⟩ :=
        kept.settled (job, stage) (List.mem_append_right _ List.mem_cons_self)
      obtain ⟨before, isFile⟩ := kept.evolves.file exposed.chunk
      have nonempty : text.toUTF8.size ≠ 0 :=
        fun empty => exposed.nonempty (String.utf8ByteSize_eq_zero_iff.mp empty)
      obtain ⟨evolves, further⟩ := PruneStage.step_kept (job.withEngine engine) fault reaches
        isFile (by simp) (kept.reaches_backup exposed) kept.backup nonempty settled
      refine kept.go evolves fun worker member => ?_
      rcases Worker.eq_or_mem_others member with rfl | member
      · exact Or.inr ⟨rfl, further⟩
      · exact Or.inl (Worker.mem_of_mem_others member)
  | @scatter bench left right job draft written piece rest after content blended =>
      obtain ⟨rfl, settled⟩ := kept.settled _ (List.mem_append_right _ List.mem_cons_self)
      have linkFree := kept.evolves.linkFree exposed.linkFree
      obtain ⟨before, isFile⟩ := kept.evolves.file exposed.chunk
      rw [reaches.writeFile isFile] at blended
      cases blended
      refine kept.go (.put (by simp) rfl (by simp [isFile]) content) fun worker member => ?_
      rcases Worker.eq_or_mem_others member with rfl | member
      · exact Or.inr ⟨rfl, rfl⟩
      · exact Or.inl (Worker.mem_of_mem_others member)
  | @stop bench left right worker =>
      exact kept.go (.refl _ _) fun other member => Or.inl (Worker.mem_of_mem_others member)

end Kept

/-! ## Any steps of any processes -/

theorem Steps.fresh_or_kept {bench : Workbench}
    (exposed : Exposed bench.tree path text directory name)
    (steps : Crew.Steps path ⟨bench, []⟩ crew) :
    crew.Apart ∧
      (crew.Fresh bench.tree path text ∨ crew.Kept bench.tree path text directory name) := by
  induction steps with
  | refl =>
      refine ⟨⟨.nil, fun worker member => ?_⟩, Or.inl ⟨rfl, fun worker member => ?_⟩⟩
      · exact absurd member List.not_mem_nil
      · exact absurd member List.not_mem_nil
  | tail _ taken inductionHypothesis =>
      obtain ⟨apart, fresh | kept⟩ := inductionHypothesis
      · exact ⟨apart.step taken, fresh.step exposed apart taken⟩
      · exact ⟨apart.step taken, Or.inr (kept.step exposed taken)⟩

/-- A chunk that has a text, which is not empty, and no backup: after any steps of any processes
there is still no backup and the chunk has its text, or the backup has the text. -/
theorem Steps.chunk_or_backup {bench : Workbench} (linkFree : bench.tree.LinkFree)
    (read : bench.tree.readText path = .ok text) (nonempty : text ≠ "")
    (absent : bench.tree.pathExists (Chunk.backupPath path) = false)
    (steps : Crew.Steps path ⟨bench, []⟩ crew) :
    crew.bench.tree.pathExists (Chunk.backupPath path) = false ∧
        crew.bench.tree.readText path = .ok text ∨
      crew.bench.tree.readText (Chunk.backupPath path) = .ok text := by
  obtain ⟨directory, name, exposed⟩ :=
    Exposed.exists_of_readText linkFree read nonempty absent
  obtain ⟨-, fresh | kept⟩ := steps.fresh_or_kept exposed
  · rw [fresh.untouched]
    exact Or.inl ⟨absent, read⟩
  · apply Or.inr
    rw [(kept.reaches_backup exposed).readText kept.backup, Text.fromUTF8?_eq_some_iff.mpr rfl]

/-! ## Processes that run to their end, or are stopped before it -/

theorem steps_stage (path : Path) (left right : List Worker) (job : PruneJob) (bench : Workbench)
    (stage : PruneStage) :
    Crew.Steps path ⟨bench, left ++ (job, stage) :: right⟩
      ⟨(stage.run job bench).1, left ++ (job, .done (stage.run job bench).2) :: right⟩ := by
  induction bench, stage using PruneStage.run.induct job with
  | case1 bench stage outcome ended =>
      rw [PruneStage.run_of_outcome ended]
      cases stage with
      | done other =>
          cases ended
          exact .refl
      | _ => cases ended
  | case2 bench stage running next inductionHypothesis =>
      rw [PruneStage.run_of_running running]
      exact .head (.work job.settings.engine none) inductionHypothesis

end Crew

/-- The chunk has not been written to so far. -/
def PruneStage.spares : PruneStage → Bool
  | write _ _ _ => false
  | done _ => false
  | _ => true

/-- As long as the chunk is not written to, each step leads on, or the chunk is passed over. -/
theorem PruneStage.step_spares (job : PruneJob) (bench : Workbench) {stage : PruneStage}
    (spared : stage.spares = true) (other : ∀ draft written, stage ≠ .truncate draft written) :
    (stage.step job none bench).2.spares = true ∨
      ∃ cause reason, (stage.step job none bench).2 = .done (.skip job.chunk cause reason) := by
  cases stage with
  | read =>
      simp only [step]
      split
      · exact Or.inr ⟨_, _, rfl⟩
      · exact Or.inr ⟨_, _, rfl⟩
      · exact Or.inl rfl
  | call source =>
      rw [step]
      rcases job.judge_cases source (job.settings.engine ⟨source, job.config⟩) with
        ⟨after, prune, judged⟩ | ⟨cause, reason, judged⟩
      · exact Or.inl (by rw [judged]; rfl)
      · exact Or.inr ⟨cause, reason, judged⟩
  | backup draft stage =>
      rw [step]
      split
      · exact Or.inl rfl
      · exact Or.inr ⟨_, _, rfl⟩
      · exact Or.inl rfl
  | truncate draft written => exact absurd rfl (other draft written)
  | write draft written pieces => cases spared
  | done outcome => cases spared

namespace Crew

/-- A process that will prune its chunk gets to the stage where it overwrites it, with the backup
that there will be in the end. -/
theorem exists_steps_truncate (path : Path) (left right : List Worker) {job : PruneJob}
    {site : Site} {slot : Slot} {content : ByteArray} {bench : Workbench} {stage : PruneStage}
    (linkFree : bench.tree.LinkFree) (holds : bench.tree.Holds site slot)
    (atSite : job.chunk.path = site.path) (stages : bench.Stages stage.staged? content)
    (spared : stage.spares = true) {result : PruneResult}
    (pruned : (slot.finish job.settings.engine job site content stage).2 = .pruned result) :
    ∃ after draft written reached,
      Crew.Steps path ⟨bench, left ++ (job, stage) :: right⟩
        ⟨after, left ++ (job, .truncate draft written) :: right⟩ ∧
      after.tree.LinkFree ∧ after.tree.Holds site reached ∧
      reached.backup = (slot.finish job.settings.engine job site content stage).1.backup := by
  induction bench, stage using PruneStage.run.induct job generalizing slot content with
  | case1 bench stage outcome ended =>
      cases stage with
      | done other => cases spared
      | _ => cases ended
  | case2 bench stage running next =>
      rename_i inductionHypothesis
      by_cases last : ∃ draft written, stage = .truncate draft written
      · obtain ⟨draft, written, rfl⟩ := last
        exact ⟨bench, draft, written, slot, .refl, linkFree, holds, rfl⟩
      · have moved : bench.tree.Evolves site.Places (stage.step job none bench).1.tree :=
          (PruneStage.step_move job none bench stage).evolves linkFree atSite
        obtain ⟨slot', content', holds', stages', same⟩ :=
          PruneStage.step_agrees linkFree holds atSite running stages
        have ends := same job.settings.engine
        rw [ite_self] at ends
        have leads := PruneStage.step_spares job bench spared
          fun draft written truncates => last ⟨draft, written, truncates⟩
        rcases leads with further | ⟨cause, reason, skipped⟩
        · rw [← ends] at pruned ⊢
          obtain ⟨after, draft, written, reached, steps, kept⟩ :=
            inductionHypothesis (moved.linkFree linkFree) holds' stages' further pruned
          exact ⟨after, draft, written, reached,
            .head (.work job.settings.engine none) steps, kept⟩
        · rw [← ends, skipped] at pruned
          cases pruned

/-- From there its next step empties the chunk. -/
theorem exists_steps_emptied (path : Path) (left right : List Worker) {job : PruneJob}
    {site : Site} {slot : Slot} {content : ByteArray} {bench : Workbench} {stage : PruneStage}
    (linkFree : bench.tree.LinkFree) (holds : bench.tree.Holds site slot)
    (atSite : job.chunk.path = site.path) (stages : bench.Stages stage.staged? content)
    (spared : stage.spares = true) {result : PruneResult}
    (pruned : (slot.finish job.settings.engine job site content stage).2 = .pruned result) :
    ∃ after draft written pieces,
      Crew.Steps path ⟨bench, left ++ (job, stage) :: right⟩
        ⟨after, left ++ (job, .write draft written pieces) :: right⟩ ∧
      after.tree.LinkFree ∧
      after.tree.Holds site
        ⟨.empty, (slot.finish job.settings.engine job site content stage).1.backup⟩ := by
  obtain ⟨after, draft, written, reached, steps, afterFree, afterHolds, kept⟩ :=
    exists_steps_truncate path left right linkFree holds atSite stages spared pruned
  have emptied := PruneStage.step_truncate_eq afterFree afterHolds atSite draft written
  have moved := (PruneStage.step_move job none after (.truncate draft written)).evolves afterFree
    atSite
  have last : Crew.Step path ⟨after, left ++ (job, .truncate draft written) :: right⟩ _ :=
    .work job.settings.engine none
  have same : job.withEngine job.settings.engine = job := rfl
  rw [emptied] at moved
  rw [same, emptied] at last
  rw [← kept]
  exact ⟨_, draft, written, _, steps.tail last, moved.linkFree afterFree,
    afterHolds.put_chunk .empty⟩

/-- A process is stopped when it has emptied the chunk, and another one finds the empty chunk and
goes on with it: the backup has what the chunk was. -/
theorem chunk_or_backup_loneTree :
    (loneTree "a".toUTF8).LinkFree ∧ (loneTree "a".toUTF8).readText loneSite.path = .ok "a" ∧
      (loneTree "a".toUTF8).pathExists (Chunk.backupPath loneSite.path) = false ∧
      ∃ halfway stopped crew,
        Crew.Steps loneSite.path ⟨.ofTree (loneTree "a".toUTF8), []⟩ halfway ∧
        halfway.workers.length = 2 ∧ halfway.bench.tree.readText loneSite.path = .ok "" ∧
        Crew.Step loneSite.path halfway stopped ∧ stopped.workers.length = 1 ∧
        Crew.Steps loneSite.path stopped crew ∧
        crew.bench.tree.readText loneSite.path = .ok "x" ∧
        crew.bench.tree.readText (Chunk.backupPath loneSite.path) = .ok "a" := by
  have linkFree := linkFree_loneTree "a".toUTF8
  have holds : (Workbench.ofTree (loneTree "a".toUTF8)).tree.Holds loneSite ⟨"a".toUTF8, none⟩ :=
    holds_loneTree "a".toUTF8
  have accepted : FileTree.refusal? loneSite.directory loneSite.backupName = none := by decide
  have read := readText_loneTree "a"
  have absent := pathExists_backup_loneTree "a".toUTF8
  have atPath : (loneChunk loneSite).path = loneSite.path := rfl
  have begun := begin_loneChunk keepFlags_loneUsage steadySettings loneSite
  have spared : ((loneChunk loneSite).begin loneUsage steadySettings).2.spares = true := by
    rw [begun]
    rfl
  have stages : (Workbench.ofTree (loneTree "a".toUTF8)).Stages
      ((loneChunk loneSite).begin loneUsage steadySettings).2.staged? .empty := by
    rw [GroupTask.staged?_begin]
    exact Workbench.stages_none _ _
  -- what becomes of the first process, if it is not stopped
  have written : (⟨"a".toUTF8, none⟩ : Slot).chunk = "a".toUTF8 := rfl
  have pruned := Slot.prune_of_answer atPath begun written rfl read?_sourceAnswer rfl
  rw [Slot.publish_of_gives accepted (Or.inl rfl), Slot.overwrite] at pruned
  obtain ⟨bench, draft, made, pieces, first, benchFree, benchHolds⟩ :=
    exists_steps_emptied loneSite.path [] [] linkFree holds atPath stages spared
      (congrArg Prod.snd pruned)
  have kept : (⟨.empty, _⟩ : Slot) = ⟨.empty, some (.file "a".toUTF8)⟩ :=
    congrArg (fun ended : Slot × Outcome => (⟨.empty, ended.1.backup⟩ : Slot)) pruned
  rw [Slot.prune] at kept
  have benchHolds := kept ▸ benchHolds
  have emptyText : String.fromUTF8? .empty = some "" := Text.fromUTF8?_eq_some_iff.mpr rfl
  have emptied := (benchHolds.reaches benchFree).readText benchHolds.chunk
  simp only [emptyText] at emptied
  have joined : Crew.Steps loneSite.path ⟨.ofTree (loneTree "a".toUTF8), []⟩ _ :=
    .head (.join loneUsage steadySettings atPath)
      (first.tail (.join loneUsage steadySettings atPath))
  have stop : ∀ worker, Crew.Step loneSite.path
      ⟨bench, [(loneChunk loneSite).begin loneUsage steadySettings] ++ worker :: []⟩
      ⟨bench, [(loneChunk loneSite).begin loneUsage steadySettings] ++ []⟩ := fun _ => .stop
  -- what becomes of the second process
  have second := steps_stage loneSite.path [] []
    ((loneChunk loneSite).begin loneUsage steadySettings).1 bench
    ((loneChunk loneSite).begin loneUsage steadySettings).2
  have again : (⟨.empty, some (.file "a".toUTF8)⟩ : Slot).chunk = "".toUTF8 := rfl
  obtain ⟨moved, ended, -⟩ := Chunk.prune_eq loneUsage steadySettings benchFree benchHolds atPath
  rw [Slot.prune_of_answer atPath begun again rfl read?_sourceAnswer rfl,
    Slot.publish_of_filled accepted rfl (by decide), Slot.overwrite] at ended
  have last := (ended.reaches (moved.linkFree benchFree)).readText ended.chunk
  rw [Text.fromUTF8?_eq_some_iff.mpr rfl] at last
  refine ⟨linkFree, read, absent, _, _, _, joined, rfl, emptied, stop _, rfl, second, last, ?_⟩
  have steps := joined.trans (.head (stop _) second)
  rcases Steps.chunk_or_backup linkFree read (by decide) absent steps with ⟨-, same⟩ | backup
  · have different := last.symm.trans same
    exact absurd (Except.ok.inj different) (by decide)
  · exact backup

end Crew

end ChunkPrune
