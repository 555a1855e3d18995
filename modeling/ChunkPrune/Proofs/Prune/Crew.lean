import ChunkPrune.Proofs.FileTree.Leads
import ChunkPrune.Proofs.Prune.Pristine

/-!
# Processes at one chunk

Any number of processes work on one chunk at the same time. They take their steps in any order,
any of them may be hit by a fault or stopped for good after any step, and others may join at any
time. A chunk that is not empty is not lost: either it is untouched and has no backup, or the
backup has its whole text.

The invariant has two phases. As long as there is no backup, no process has got beyond the making
of one, and each that has read the chunk holds its text. The first publication of a staged file
ends this phase; from then on the backup is not empty, so no process replaces it.
-/

namespace ChunkPrune

/-- A process on a chunk: its job, and how far it has come. -/
abbrev Worker := PruneJob × PruneStage

/-- The processes on a chunk with the workbench that they share. -/
structure Crew where
  bench : Workbench
  workers : List Worker

/-- A process joins, takes a step or is stopped. -/
inductive Crew.Step (path : Path) : Crew → Crew → Prop
  | join {bench : Workbench} {workers : List Worker} {chunk : Chunk} (merged : MergedUsage)
      (settings : PruneSettings) (atPath : chunk.path = path) :
      Step path ⟨bench, workers⟩ ⟨bench, chunk.begin merged settings :: workers⟩
  | work {bench : Workbench} {left right : List Worker} {job : PruneJob} {stage : PruneStage}
      (engine : Engine) (fault : Option OsError) :
      Step path ⟨bench, left ++ (job, stage) :: right⟩
        ⟨(stage.step (job.withEngine engine) fault bench).1,
          left ++ (job, (stage.step (job.withEngine engine) fault bench).2) :: right⟩
  -- Writers in one file have each a place of their own in it, so that what a piece makes of the
  -- file when there are several of them is left open.
  | scatter {bench : Workbench} {left right : List Worker} {job : PruneJob} {draft : Draft}
      {written : Bool} {piece : ByteArray} {rest : List ByteArray} {tree : FileTree}
      (content : ByteArray) (blended : bench.tree.writeFile job.chunk.path content = .ok tree) :
      Step path ⟨bench, left ++ (job, .write draft written (piece :: rest)) :: right⟩
        ⟨{ bench with tree }, left ++ (job, .write draft written rest) :: right⟩
  | stop {bench : Workbench} {left right : List Worker} {worker : Worker} :
      Step path ⟨bench, left ++ worker :: right⟩ ⟨bench, left ++ right⟩

/-- Some steps, in any order of the processes. -/
abbrev Crew.Steps (path : Path) : Crew → Crew → Prop := Relation.ReflTransGen (Crew.Step path)

namespace FileTree

variable {tree : FileTree} {path : Path} {location : Location}

/-- A path leads to a place where nothing stands, or is refused. -/
def Free (tree : FileTree) (path : Path) : Prop :=
  (∃ location, tree.Reaches path location ∧ tree.entry? location = none) ∨
    ∃ cause, ∀ follow, tree.resolve follow path = .error cause

namespace Free

theorem lookup (free : tree.Free path) (follow : Bool) :
    ∃ cause, tree.lookup follow path = .error cause := by
  rcases free with ⟨location, reaches, vacant⟩ | ⟨cause, refused⟩
  · exact ⟨.notFound, by rw [FileTree.lookup, reaches follow, placeAt, vacant]⟩
  · exact ⟨cause, by rw [FileTree.lookup, refused follow]⟩

theorem length (free : tree.Free path) : ∃ cause, tree.length path = .error cause := by
  obtain ⟨cause, failed⟩ := free.lookup true
  exact ⟨cause, by rw [FileTree.length, failed]⟩

theorem reaches_of_placeNew (free : tree.Free path) {content : ByteArray} {after : FileTree}
    (placed : tree.placeNew path content = .ok after) :
    ∃ location, tree.Reaches path location ∧ after = tree.put location (.file content) := by
  rcases free with ⟨location, reaches, vacant⟩ | ⟨cause, refused⟩
  · rw [reaches.placeNew_vacant vacant] at placed
    cases placed
    exact ⟨location, reaches, rfl⟩
  · rw [placeNew, refused false] at placed
    cases placed

end Free

/-- A path reaches the location that it leads to. -/
theorem Reaches.eq_destination (reaches : tree.Reaches path location)
    (linkFree : tree.LinkFree) : location = tree.destination path := by
  have same := location_of_resolve (linkFree.not_crosses _) (reaches true)
  rw [placeAt] at same
  cases there : tree.entry? location with
  | none => simpa [there, Place.location] using same
  | some entry => simpa [there, Place.location] using same

end FileTree

/-! ## Making a backup -/

namespace Workbench

variable {bench after : Workbench} {file : Nat}

theorem stages_of_createStaged {directory : Path}
    (created : bench.createStaged directory = .ok (file, after)) :
    after.tree = bench.tree ∧ after.Stages (some file) .empty := by
  rw [createStaged] at created
  split at created
  next location found =>
    cases created
    refine ⟨rfl, ?_⟩
    rintro number ⟨⟩
    exact ⟨location, (Table.get?_insert _ _ _ _).trans (if_pos rfl)⟩
  · cases created
  · cases created

theorem stages_of_appendStaged {content piece : ByteArray}
    (appended : bench.appendStaged file piece = .ok after)
    (stages : bench.Stages (some file) content) :
    after.tree = bench.tree ∧ after.Stages (some file) (content ++ piece) := by
  obtain ⟨directory, found⟩ := stages file rfl
  rw [appendStaged, found] at appended
  cases appended
  refine ⟨rfl, ?_⟩
  rintro number ⟨⟩
  exact ⟨directory, (Table.get?_insert _ _ _ _).trans (if_pos rfl)⟩

theorem tree_of_appendStaged {piece : ByteArray}
    (appended : bench.appendStaged file piece = .ok after) : after.tree = bench.tree := by
  rw [appendStaged] at appended
  split at appended
  · cases appended
    rfl
  · cases appended

end Workbench

namespace BackupStage

/-- The next step replaces a backup. -/
def replaces : BackupStage → Bool
  | replace _ => true
  | _ => false

/-- No backup has been published so far, and the staged file has what was written to it. -/
def Unpublished (text : String) (bench : Workbench) : BackupStage → Prop
  | create => True
  | fill file pieces =>
    ∃ content, bench.Stages (some file) content ∧ pieces.foldl (· ++ ·) content = text.toUTF8
  | sync file => bench.Stages (some file) text.toUTF8
  | publish file => bench.Stages (some file) text.toUTF8
  | inspect _ => True
  | replace _ => False
  | discard _ result => ∃ failure, result = .error failure
  | done result => ∃ failure, result = .error failure

variable {bench : Workbench} {stage : BackupStage}

theorem not_replaces_of_unpublished {text : String} (unpublished : stage.Unpublished text bench) :
    stage.replaces = false := by
  cases stage with
  | replace file => exact absurd unpublished id
  | _ => rfl

/-- What a step does while there is no backup: the tree stays as it is, or the whole text is
published. -/
theorem step_unpublished (job : BackupJob) (fault : Option OsError)
    (free : bench.tree.Free job.backup)
    (unpublished : stage.Unpublished job.text bench) (running : stage.result? = none) :
    ((stage.step job fault bench).1.tree = bench.tree ∧
        (stage.step job fault bench).2.Unpublished job.text (stage.step job fault bench).1) ∨
      ((stage.step job fault bench).2.replaces = false ∧
        ∃ location, bench.tree.Reaches job.backup location ∧
          (stage.step job fault bench).1.tree =
            bench.tree.put location (.file job.text.toUTF8)) := by
  cases stage with
  | create =>
      apply Or.inl
      rw [step]
      split
      next file after created =>
        obtain ⟨same, stages⟩ := Workbench.stages_of_createStaged (eq_ok_of_underFault created)
        exact ⟨same, .empty, stages, job.cutting.joined _⟩
      · exact ⟨rfl, _, rfl⟩
  | fill file pieces =>
      apply Or.inl
      obtain ⟨content, stages, whole⟩ := unpublished
      cases pieces with
      | nil =>
          obtain rfl : content = job.text.toUTF8 := whole
          exact ⟨rfl, stages⟩
      | cons piece rest =>
          rw [step]
          split
          next after appended =>
            obtain ⟨same, grown⟩ :=
              Workbench.stages_of_appendStaged (eq_ok_of_underFault appended) stages
            exact ⟨same, _, grown, whole⟩
          · exact ⟨rfl, _, rfl⟩
  | sync file =>
      cases fault with
      | none => exact Or.inl ⟨rfl, unpublished⟩
      | some cause => exact Or.inl ⟨rfl, _, rfl⟩
  | publish file =>
      obtain ⟨directory, found⟩ := unpublished file rfl
      rw [step]
      split
      next after published =>
        have published := eq_ok_of_underFault published
        rw [Workbench.publishStaged, found] at published
        obtain ⟨tree, placed, rfl⟩ := exists_of_map_eq_ok published
        exact Or.inr ⟨rfl, free.reaches_of_placeNew placed⟩
      · exact Or.inl ⟨rfl, trivial⟩
      · exact Or.inl ⟨rfl, _, rfl⟩
  | inspect file =>
      obtain ⟨cause, failed⟩ := free.length
      rw [step, failed]
      split
      next length found => cases eq_ok_of_underFault found
      · exact Or.inl ⟨rfl, _, rfl⟩
  | replace file => exact absurd unpublished id
  | discard file result => exact Or.inl ⟨rfl, unpublished⟩
  | done result => cases running

/-- A backup that is not empty is neither written nor replaced. -/
theorem step_kept (job : BackupJob) (fault : Option OsError) {location : Location}
    {content : ByteArray}
    (reaches : bench.tree.Reaches job.backup location)
    (there : bench.tree.entry? location = some (.file content)) (nonempty : content.size ≠ 0)
    (settled : stage.replaces = false) :
    (stage.step job fault bench).1.tree = bench.tree ∧
      (stage.step job fault bench).2.replaces = false := by
  cases stage with
  | create =>
      rw [step]
      split
      next file after created =>
        exact ⟨(Workbench.stages_of_createStaged (eq_ok_of_underFault created)).1, rfl⟩
      · exact ⟨rfl, rfl⟩
  | fill file pieces =>
      cases pieces with
      | nil => exact ⟨rfl, rfl⟩
      | cons piece rest =>
          rw [step]
          split
          next after appended =>
            exact ⟨Workbench.tree_of_appendStaged (eq_ok_of_underFault appended), rfl⟩
          · exact ⟨rfl, rfl⟩
  | sync file => cases fault <;> exact ⟨rfl, rfl⟩
  | publish file =>
      rw [step]
      split
      next after published =>
        have published := eq_ok_of_underFault published
        rw [Workbench.publishStaged] at published
        split at published
        · rw [reaches.placeNew_occupied there] at published
          cases published
        · cases published
      · exact ⟨rfl, rfl⟩
      · exact ⟨rfl, rfl⟩
  | inspect file =>
      rw [step]
      split
      next length found =>
        have found := eq_ok_of_underFault found
        rw [reaches.length_file there] at found
        cases found
        rw [if_neg fun empty => nonempty empty.1]
        exact ⟨rfl, rfl⟩
      · exact ⟨rfl, rfl⟩
  | replace file => cases settled
  | discard file result => exact ⟨rfl, rfl⟩
  | done result => exact ⟨rfl, rfl⟩

theorem Unpublished.frame {text : String} {after : Workbench}
    (unpublished : stage.Unpublished text bench)
    (kept : ∀ number, stage.staged? = some number →
      after.staged.get? number = bench.staged.get? number) : stage.Unpublished text after := by
  have stages : ∀ {file : Nat} {content : ByteArray}, stage.staged? = some file →
      bench.Stages (some file) content → after.Stages (some file) content := by
    rintro file content own there number ⟨⟩
    rw [kept file own]
    exact there file rfl
  cases stage with
  | fill file pieces =>
      obtain ⟨content, there, whole⟩ := unpublished
      exact ⟨content, stages rfl there, whole⟩
  | sync file => exact stages rfl unpublished
  | publish file => exact stages rfl unpublished
  | _ => exact unpublished

end BackupStage

/-! ## Pruning a chunk -/

namespace PruneStage

/-- The next step replaces a backup. -/
def replaces : PruneStage → Bool
  | backup _ stage => stage.replaces
  | _ => false

/-- The work on a chunk with this text has not got beyond the making of a backup. -/
def Early (text : String) (bench : Workbench) : PruneStage → Prop
  | read => True
  | call source => source = text
  | backup draft stage => draft.before = text ∧ stage.Unpublished text bench
  | truncate _ _ => False
  | write _ _ _ => False
  | done _ => True

variable {bench : Workbench} {stage : PruneStage}

theorem replaces_judge (job : PruneJob) (source : String) (answer : Except Failure String) :
    (job.judge source answer).replaces = false := by
  rcases job.judge_cases source answer with ⟨after, prune, judged⟩ | ⟨cause, reason, judged⟩
  · rw [judged]
    rfl
  · rw [judged]
    rfl

theorem early_judge (job : PruneJob) (source : String) (answer : Except Failure String)
    (bench : Workbench) : (job.judge source answer).Early source bench := by
  rcases job.judge_cases source answer with ⟨after, prune, judged⟩ | ⟨cause, reason, judged⟩
  · rw [judged]
    exact ⟨rfl, trivial⟩
  · rw [judged]
    trivial

theorem early_begin (merged : MergedUsage) (settings : PruneSettings) (chunk : Chunk)
    (text : String) (bench : Workbench) :
    (chunk.begin merged settings).2.Early text bench := by
  rcases chunk.begin_cases merged settings with begun | ⟨cause, reason, begun⟩
  · rw [begun]
    trivial
  · rw [begun]
    trivial

theorem replaces_begin (merged : MergedUsage) (settings : PruneSettings) (chunk : Chunk) :
    (chunk.begin merged settings).2.replaces = false := by
  rcases chunk.begin_cases merged settings with begun | ⟨cause, reason, begun⟩
  · rw [begun]
    rfl
  · rw [begun]
    rfl

theorem not_replaces_of_early {text : String} (early : stage.Early text bench) :
    stage.replaces = false := by
  cases stage with
  | backup draft stage => exact BackupStage.not_replaces_of_unpublished early.2
  | _ => rfl

theorem Early.frame {text : String} {after : Workbench} (early : stage.Early text bench)
    (kept : ∀ number, stage.staged? = some number →
      after.staged.get? number = bench.staged.get? number) : stage.Early text after := by
  cases stage with
  | backup draft stage => exact ⟨early.1, early.2.frame kept⟩
  | _ => exact early

/-- What a step does while there is no backup: the tree stays as it is, or the whole text of the
chunk is published as its backup. -/
theorem step_early (job : PruneJob) (fault : Option OsError) {text : String}
    (reads : bench.tree.readText job.chunk.path = .ok text)
    (free : bench.tree.Free (Chunk.backupPath job.chunk.path)) (early : stage.Early text bench) :
    ((stage.step job fault bench).1.tree = bench.tree ∧
        (stage.step job fault bench).2.Early text (stage.step job fault bench).1) ∨
      ((stage.step job fault bench).2.replaces = false ∧
        ∃ location, bench.tree.Reaches (Chunk.backupPath job.chunk.path) location ∧
          (stage.step job fault bench).1.tree =
            bench.tree.put location (.file text.toUTF8)) := by
  cases stage with
  | read =>
      apply Or.inl
      simp only [step, reads]
      cases fault with
      | none => exact ⟨rfl, rfl⟩
      | some cause => exact ⟨rfl, trivial⟩
  | call source =>
      obtain rfl : source = text := early
      exact Or.inl ⟨rfl, early_judge job source _ _⟩
  | backup draft stage =>
      obtain ⟨rfl, unpublished⟩ := early
      rw [step]
      split
      next written finished =>
        cases stage with
        | done result =>
            obtain ⟨failure, rfl⟩ := unpublished
            cases finished
        | _ => cases finished
      · exact Or.inl ⟨rfl, trivial⟩
      next running =>
        have moved :=
          BackupStage.step_unpublished (job.backupJob draft) fault free unpublished running
        exact moved.imp (fun same => ⟨same.1, rfl, same.2⟩) id
  | truncate draft written => exact absurd early id
  | write draft written pieces => exact absurd early id
  | done outcome => exact Or.inl ⟨rfl, trivial⟩

/-- Once there is a backup that is not empty, a step writes to the chunk at most. -/
theorem step_kept (job : PruneJob) (fault : Option OsError) {location backup : Location}
    {before content : ByteArray}
    (reaches : bench.tree.Reaches job.chunk.path location)
    (isFile : bench.tree.entry? location = some (.file before)) (below : location ≠ [])
    (reachesBackup : bench.tree.Reaches (Chunk.backupPath job.chunk.path) backup)
    (there : bench.tree.entry? backup = some (.file content)) (nonempty : content.size ≠ 0)
    (settled : stage.replaces = false) :
    bench.tree.Evolves (Eq location) (stage.step job fault bench).1.tree ∧
      (stage.step job fault bench).2.replaces = false := by
  have evolves : ∀ after, bench.tree.Evolves (Eq location)
      (bench.tree.put location (.file after)) := by
    refine fun after => .put below rfl ?_ after
    rw [isFile]
    exact fun same => nomatch same
  cases stage with
  | read =>
      simp only [step]
      split
      · exact ⟨.refl _ _, rfl⟩
      · exact ⟨.refl _ _, rfl⟩
      · exact ⟨.refl _ _, rfl⟩
  | call source => exact ⟨.refl _ _, replaces_judge job source _⟩
  | backup draft stage =>
      rw [step]
      split
      · exact ⟨.refl _ _, rfl⟩
      · exact ⟨.refl _ _, rfl⟩
      · obtain ⟨same, kept⟩ := BackupStage.step_kept (job.backupJob draft) fault reachesBackup
          there nonempty settled
        exact ⟨same ▸ .refl _ _, kept⟩
  | truncate draft written =>
      rw [step]
      split
      next after truncated =>
        have truncated := eq_ok_of_underFault truncated
        rw [Workbench.truncate, reaches.writeFile isFile] at truncated
        cases truncated
        exact ⟨evolves _, rfl⟩
      · exact ⟨.refl _ _, rfl⟩
  | write draft written pieces =>
      cases pieces with
      | nil => exact ⟨.refl _ _, rfl⟩
      | cons piece rest =>
          rw [step]
          split
          next after appended =>
            have appended := eq_ok_of_underFault appended
            rw [Workbench.append, reaches.appendFile isFile] at appended
            cases appended
            exact ⟨evolves _, rfl⟩
          · exact ⟨.refl _ _, rfl⟩
  | done outcome => exact ⟨.refl _ _, rfl⟩

end PruneStage

/-! ## Staged files -/

namespace Worker

/-- Two processes have no staged file in common. -/
def Apart (left right : Worker) : Prop :=
  ∀ number, left.2.staged? = some number → right.2.staged? ≠ some number

theorem Apart.symm {left right : Worker} (apart : left.Apart right) : right.Apart left :=
  fun number owned other => apart number other owned

/-- The process in one place among others, or one of the others. -/
theorem eq_or_mem_others {left right : List Worker} {own worker : Worker}
    (member : worker ∈ left ++ own :: right) : worker = own ∨ worker ∈ left ++ right := by
  rwa [List.mem_append, List.mem_cons, or_left_comm, ← List.mem_append] at member

theorem mem_of_mem_others {left right : List Worker} {own worker : Worker}
    (member : worker ∈ left ++ right) : worker ∈ left ++ own :: right :=
  List.mem_append.mpr ((List.mem_append.mp member).imp id (List.mem_cons_of_mem _))

end Worker

namespace Crew

/-- Each process has a staged file of its own, if any. -/
structure Apart (crew : Crew) : Prop where
  pairwise : crew.workers.Pairwise Worker.Apart
  present : ∀ worker ∈ crew.workers, ∀ number, worker.2.staged? = some number →
    crew.bench.staged.get? number ≠ none

namespace Apart

variable {bench : Workbench} {left right : List Worker} {worker : Worker}

/-- The process at work has no staged file in common with the others. -/
theorem others (apart : Apart ⟨bench, left ++ worker :: right⟩) {other : Worker}
    (member : other ∈ left ++ right) : worker.Apart other :=
  (List.pairwise_cons.mp ((List.pairwise_middle Worker.Apart.symm).mp apart.pairwise)).1 other
    member

theorem erase (apart : Apart ⟨bench, left ++ worker :: right⟩) : Apart ⟨bench, left ++ right⟩ :=
  ⟨(List.pairwise_cons.mp ((List.pairwise_middle Worker.Apart.symm).mp apart.pairwise)).2,
    fun other member => apart.present other (Worker.mem_of_mem_others member)⟩

/-- One process goes on, with its own staged file or a new one. -/
theorem replace {after : Workbench} {next : Worker}
    (apart : Apart ⟨bench, left ++ worker :: right⟩)
    (ownOrFresh : ∀ number, next.2.staged? = some number →
      worker.2.staged? = some number ∨ bench.staged.get? number = none)
    (ownPresent : ∀ number, next.2.staged? = some number → after.staged.get? number ≠ none)
    (otherStaged : ∀ number, bench.staged.get? number ≠ none → worker.2.staged? ≠ some number →
      after.staged.get? number = bench.staged.get? number) :
    Apart ⟨after, left ++ next :: right⟩ := by
  have rest := apart.erase
  constructor
  · refine (List.pairwise_middle Worker.Apart.symm).mpr
      (List.pairwise_cons.mpr ⟨fun other member number owned otherOwned => ?_, rest.pairwise⟩)
    rcases ownOrFresh number owned with own | fresh
    · exact apart.others member number own otherOwned
    · exact rest.present other member number otherOwned fresh
  · intro other member number owned
    rcases Worker.eq_or_mem_others member with rfl | member
    · exact ownPresent number owned
    · have present := rest.present other member number owned
      rwa [otherStaged number present fun own => apart.others member number own owned]

theorem step {path : Path} {crew next : Crew} (apart : crew.Apart)
    (taken : crew.Step path next) : next.Apart := by
  cases taken with
  | join merged settings atPath =>
      have none := GroupTask.staged?_begin merged settings
      refine ⟨List.pairwise_cons.mpr ⟨fun other member number owned => ?_, apart.pairwise⟩,
        fun other member number owned => ?_⟩
      · rw [none] at owned
        cases owned
      · rcases List.mem_cons.mp member with rfl | member
        · rw [none] at owned
          cases owned
        · exact apart.present other member number owned
  | @work bench left right job stage engine fault =>
      have move := stage.step_move (job.withEngine engine) fault bench
      have present := apart.present (job, stage) (List.mem_append_right _ List.mem_cons_self)
      exact apart.replace (fun number => move.own_or_fresh)
        (fun number => move.own_present present) (fun number => move.other_staged)
  | scatter content blended =>
      exact apart.replace (fun number owned => nomatch owned) (fun number owned => nomatch owned)
        (fun number _ _ => rfl)
  | stop => exact apart.erase

end Apart

end Crew

end ChunkPrune
