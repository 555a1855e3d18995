import ChunkPrune.Prune.Job
import ChunkPrune.Proofs.Chunk.Site
import ChunkPrune.Proofs.FileTree.Evolves

/-!
# What a step on a chunk can touch

A step of the work on a chunk writes files at the site of the chunk and at its backup
only. Of the staged files it touches its own one only, and a new one has a number that
no staged file had. It makes a call exactly when it asks the engine.
-/

namespace ChunkPrune

namespace Site

/-- The locations that the work on the chunk of a site may write to. -/
def Places (site : Site) (location : Location) : Prop :=
  location = site.location ∨ location = site.backup

theorem places_location (site : Site) : site.Places site.location := Or.inl rfl

theorem places_backup (site : Site) : site.Places site.backup := Or.inr rfl

theorem Places.ne_nil {site : Site} {location : Location} (place : site.Places location) :
    location ≠ [] := by
  rcases place with rfl | rfl
  · exact site.location_ne_nil
  · exact site.backup_ne_nil

theorem not_places_of_ne {site other : Site} (different : site ≠ other) :
    ¬ site.Places other.location ∧ ¬ site.Places other.backup := by
  constructor
  · rintro (same | same)
    · exact different (ext_location same).symm
    · exact location_ne_backup other site same
  · rintro (same | same)
    · exact location_ne_backup site other same.symm
    · exact different (ext_backup same).symm

/-- Two sites with a common place are one. -/
theorem eq_of_places {site other : Site} {location : Location}
    (here : site.Places location) (there : other.Places location) : site = other := by
  by_contra different
  obtain ⟨chunkOutside, backupOutside⟩ := Site.not_places_of_ne different
  rcases there with rfl | rfl
  · exact chunkOutside here
  · exact backupOutside here

end Site

theorem eq_ok_of_underFault {α : Type} {fault : Option OsError} {result : Except OsError α}
    {value : α} (succeeded : underFault fault result = .ok value) : result = .ok value := by
  cases fault with
  | none => exact succeeded
  | some cause => cases succeeded

theorem exists_of_map_eq_ok {ε α β : Type} {f : α → β} {result : Except ε α} {value : β}
    (mapped : result.map f = .ok value) : ∃ inner, result = .ok inner ∧ f inner = value := by
  cases result with
  | error cause => cases mapped
  | ok inner => exact ⟨inner, rfl, Except.ok.inj mapped⟩

namespace Workbench

theorem get?_freshStaged (bench : Workbench) : bench.staged.get? bench.freshStaged = none := by
  refine Entries.get?_eq_none_of_not_mem fun member => ?_
  obtain ⟨⟨number, staged⟩, entryMember, key⟩ := List.mem_map.mp member
  have ordered := List.pairwise_map.mpr bench.staged.ordered
  rw [freshStaged, Table.keys] at key
  cases last : (bench.staged.entries.map (·.1)).getLast? with
  | none =>
      rw [List.getLast?_eq_none_iff, List.map_eq_nil_iff] at last
      rw [last] at entryMember
      exact List.not_mem_nil entryMember
  | some greatest =>
      rw [last] at key
      obtain ⟨initial, shape⟩ := List.getLast?_eq_some_iff.mp last
      have bound : number ≤ greatest := by
        have keyMember : number ∈ bench.staged.entries.map (·.1) :=
          List.mem_map.mpr ⟨_, entryMember, rfl⟩
        rw [shape] at keyMember ordered
        rcases List.mem_append.mp keyMember with earlier | final
        · exact Nat.le_of_lt ((List.pairwise_append.mp ordered).2.2 number earlier greatest
            List.mem_cons_self)
        · exact Nat.le_of_eq (List.mem_singleton.mp final)
      simp only at key
      omega

end Workbench

/-! ## Making a backup -/

/-- What a step can do to the workbench on the way to a backup with a given path, and how
it passes on the staged file it works with. -/
inductive BackupMove (target : Path) (bench : Workbench) :
    Option Nat → Workbench → Option Nat → Prop
  | stay (own : Option Nat) : BackupMove target bench own bench own
  | create (directory : Location) :
      BackupMove target bench none
        { bench with staged := bench.staged.insert bench.freshStaged ⟨directory, .empty⟩ }
        (some bench.freshStaged)
  | append (own : Nat) (staged : StagedFile) :
      BackupMove target bench (some own) { bench with staged := bench.staged.insert own staged }
        (some own)
  | publish (own : Nat) (staged : StagedFile) (tree : FileTree)
      (named : bench.tree.placeNew target staged.content = .ok tree ∨
        bench.tree.replaceAt target (.file staged.content) = .ok tree) :
      BackupMove target bench (some own) { bench.discardStaged own with tree } none
  | discard (own : Nat) :
      BackupMove target bench (some own) (bench.discardStaged own) none

namespace BackupStage

/-- The staged file that a stage works with. -/
def staged? : BackupStage → Option Nat
  | create => none
  | fill file _ => some file
  | sync file => some file
  | publish file => some file
  | inspect file => some file
  | replace file => some file
  | discard file _ => some file
  | done _ => none

theorem step_move (job : BackupJob) (fault : Option OsError) (bench : Workbench)
    (stage : BackupStage) :
    BackupMove job.backup bench stage.staged? (stage.step job fault bench).1
      (stage.step job fault bench).2.staged? := by
  cases stage with
  | create =>
      rw [step]
      split
      next file after created =>
        have created := eq_ok_of_underFault created
        rw [Workbench.createStaged] at created
        split at created
        · cases created
          exact .create _
        · cases created
        · cases created
      · exact .stay none
  | fill file pieces =>
      cases pieces with
      | nil => exact .stay (some file)
      | cons piece rest =>
          rw [step]
          split
          next after appended =>
            have appended := eq_ok_of_underFault appended
            rw [Workbench.appendStaged] at appended
            split at appended
            · cases appended
              exact .append file _
            · cases appended
          · exact .stay (some file)
  | sync file =>
      cases fault with
      | none => exact .stay (some file)
      | some cause => exact .stay (some file)
  | publish file =>
      rw [step]
      split
      next after published =>
        have published := eq_ok_of_underFault published
        rw [Workbench.publishStaged] at published
        split at published
        next staged found =>
          obtain ⟨tree, placed, rfl⟩ := exists_of_map_eq_ok published
          exact .publish file staged tree (Or.inl placed)
        · cases published
      · exact .stay (some file)
      · exact .stay (some file)
  | inspect file =>
      rw [step]
      split
      · split
        · exact .stay (some file)
        · exact .stay (some file)
      · exact .stay (some file)
  | replace file =>
      rw [step]
      split
      next after published =>
        have published := eq_ok_of_underFault published
        rw [Workbench.replaceWithStaged] at published
        split at published
        next staged found =>
          obtain ⟨tree, replaced, rfl⟩ := exists_of_map_eq_ok published
          exact .publish file staged tree (Or.inr replaced)
        · cases published
      · exact .stay (some file)
  | discard file result => exact .discard file
  | done result => exact .stay none

end BackupStage

namespace BackupMove

variable {target : Path} {bench after : Workbench} {own own' : Option Nat}

theorem calls (move : BackupMove target bench own after own') : after.calls = bench.calls := by
  cases move <;> rfl

theorem other_staged (move : BackupMove target bench own after own') {number : Nat}
    (present : bench.staged.get? number ≠ none) (notOwn : own ≠ some number) :
    after.staged.get? number = bench.staged.get? number := by
  cases move with
  | stay => rfl
  | create directory =>
      refine (Table.get?_insert _ _ _ _).trans (if_neg ?_)
      rintro rfl
      exact present bench.get?_freshStaged
  | append own staged =>
      exact (Table.get?_insert _ _ _ _).trans (if_neg fun same => notOwn (congrArg some same))
  | publish own staged tree named =>
      exact (Table.get?_erase _ _ _).trans (if_neg fun same => notOwn (congrArg some same))
  | discard own =>
      exact (Table.get?_erase _ _ _).trans (if_neg fun same => notOwn (congrArg some same))

theorem own_or_fresh (move : BackupMove target bench own after own') {number : Nat}
    (owned : own' = some number) : own = some number ∨ bench.staged.get? number = none := by
  cases move with
  | stay => exact Or.inl owned
  | create directory => exact Or.inr (Option.some.inj owned ▸ bench.get?_freshStaged)
  | append own staged => exact Or.inl owned
  | publish own staged tree named => cases owned
  | discard own => cases owned

theorem own_present (move : BackupMove target bench own after own')
    (present : ∀ number, own = some number → bench.staged.get? number ≠ none) {number : Nat}
    (owned : own' = some number) : after.staged.get? number ≠ none := by
  cases move with
  | stay => exact present number owned
  | create directory =>
      cases owned
      rw [Table.get?_insert, if_pos rfl]
      exact Option.some_ne_none _
  | append own staged =>
      cases owned
      rw [Table.get?_insert, if_pos rfl]
      exact Option.some_ne_none _
  | publish own staged tree named => cases owned
  | discard own => cases owned

theorem evolves (move : BackupMove target bench own after own') {site : Site}
    (linkFree : bench.tree.LinkFree) (atSite : target = Chunk.backupPath site.path) :
    bench.tree.Evolves site.Places after.tree := by
  have path : target = FileTree.pathOf (site.directory ++ [site.backupName]) :=
    atSite.trans site.backupPath_path
  cases move with
  | stay => exact .refl _ _
  | create directory => exact .refl _ _
  | append own staged => exact .refl _ _
  | publish own staged tree named =>
      rw [path] at named
      rcases named with placed | replaced
      · exact FileTree.evolves_of_placeNew linkFree site.directoryNames site.isName_backupName
          site.places_backup placed
      · exact FileTree.evolves_of_replaceAt linkFree site.directoryNames site.isName_backupName
          site.places_backup replaced
  | discard own => exact .refl _ _

end BackupMove

/-! ## Pruning a chunk -/

namespace PruneStage

/-- The staged file that a stage works with. -/
def staged? : PruneStage → Option Nat
  | backup _ stage => stage.staged?
  | _ => none

/-- The stage asks the engine next, about a source. -/
def asks? : PruneStage → Option String
  | call source => some source
  | _ => none

end PruneStage

/-- What a step can do to the workbench in the work on a chunk, and the staged file that it
works with afterwards. -/
inductive PruneMove (job : PruneJob) (bench : Workbench) :
    PruneStage → Workbench → Option Nat → Prop
  | stay {stage : PruneStage} (silent : stage.asks? = none) : PruneMove job bench stage bench none
  | ask (source : String) :
      PruneMove job bench (.call source) (bench.recordCall ⟨source, job.config⟩) none
  | backup (draft : Draft) {stage : BackupStage} {after : Workbench} {own : Option Nat}
      (move : BackupMove (Chunk.backupPath job.chunk.path) bench stage.staged? after own) :
      PruneMove job bench (.backup draft stage) after own
  | chunk {stage : PruneStage} (silent : stage.asks? = none) (tree : FileTree)
      (written : bench.tree.writeFile job.chunk.path .empty = .ok tree ∨
        ∃ piece, bench.tree.appendFile job.chunk.path piece = .ok tree) :
      PruneMove job bench stage { bench with tree } none

namespace PruneMove

variable {job : PruneJob} {bench after : Workbench} {stage : PruneStage} {own : Option Nat}

theorem calls (move : PruneMove job bench stage after own) :
    after.calls =
      bench.calls ++ (stage.asks?.map fun source => ⟨source, job.config⟩).toList := by
  cases move with
  | stay silent =>
      rw [silent]
      exact (List.append_nil _).symm
  | ask source => rfl
  | backup draft move => exact move.calls.trans (List.append_nil _).symm
  | chunk silent tree written =>
      rw [silent]
      exact (List.append_nil _).symm

theorem evolves (move : PruneMove job bench stage after own) {site : Site}
    (linkFree : bench.tree.LinkFree) (atSite : job.chunk.path = site.path) :
    bench.tree.Evolves site.Places after.tree := by
  cases move with
  | stay silent => exact .refl _ _
  | ask source => exact .refl _ _
  | backup draft move => exact move.evolves linkFree (congrArg Chunk.backupPath atSite)
  | chunk silent tree written =>
      rw [atSite] at written
      rcases written with emptied | ⟨piece, grown⟩
      · exact FileTree.evolves_of_writeFile linkFree site.directoryNames site.isName
          site.places_location emptied
      · exact FileTree.evolves_of_appendFile linkFree site.directoryNames site.isName
          site.places_location grown

theorem other_staged (move : PruneMove job bench stage after own) {number : Nat}
    (present : bench.staged.get? number ≠ none) (notOwn : stage.staged? ≠ some number) :
    after.staged.get? number = bench.staged.get? number := by
  cases move with
  | stay silent => rfl
  | ask source => rfl
  | backup draft move => exact move.other_staged present notOwn
  | chunk silent tree written => rfl

theorem own_or_fresh (move : PruneMove job bench stage after own) {number : Nat}
    (owned : own = some number) :
    stage.staged? = some number ∨ bench.staged.get? number = none := by
  cases move with
  | stay silent => cases owned
  | ask source => cases owned
  | backup draft move => exact move.own_or_fresh owned
  | chunk silent tree written => cases owned

theorem own_present (move : PruneMove job bench stage after own)
    (present : ∀ number, stage.staged? = some number → bench.staged.get? number ≠ none)
    {number : Nat} (owned : own = some number) : after.staged.get? number ≠ none := by
  cases move with
  | stay silent => cases owned
  | ask source => cases owned
  | backup draft move => exact move.own_present present owned
  | chunk silent tree written => cases owned

end PruneMove

/-- A chunk is read first, unless it is passed over at once. -/
theorem Chunk.begin_cases (merged : MergedUsage) (settings : PruneSettings) (chunk : Chunk) :
    (chunk.begin merged settings).2 = .read ∨
      ∃ cause reason, (chunk.begin merged settings).2 = .done (.skip chunk cause reason) := by
  simp only [begin]
  split
  · exact Or.inr ⟨_, _, rfl⟩
  · split
    · exact Or.inr ⟨_, _, rfl⟩
    · exact Or.inl rfl

/-- An answer leads to a backup of what was read, or the chunk is passed over. -/
theorem PruneJob.judge_cases (job : PruneJob) (source : String)
    (answer : Except Failure String) :
    (∃ after prune, job.judge source answer = .backup ⟨source, after, prune⟩ .create) ∨
      ∃ cause reason, job.judge source answer = .done (.skip job.chunk cause reason) := by
  unfold judge
  split
  · exact Or.inr ⟨_, _, rfl⟩
  · split
    · exact Or.inr ⟨_, _, rfl⟩
    · exact Or.inr ⟨_, _, rfl⟩
    · exact Or.inr ⟨_, _, rfl⟩
    · split
      · exact Or.inl ⟨_, _, rfl⟩
      · exact Or.inr ⟨_, _, rfl⟩

namespace PruneStage

theorem staged?_judge (job : PruneJob) (source : String) (answer : Except Failure String) :
    (job.judge source answer).staged? = none := by
  rcases job.judge_cases source answer with ⟨after, prune, judged⟩ | ⟨cause, reason, judged⟩
  · rw [judged]
    rfl
  · rw [judged]
    rfl

theorem step_move (job : PruneJob) (fault : Option OsError) (bench : Workbench)
    (stage : PruneStage) :
    PruneMove job bench stage (stage.step job fault bench).1
      (stage.step job fault bench).2.staged? := by
  cases stage with
  | read =>
      simp only [step]
      split
      · exact .stay rfl
      · exact .stay rfl
      · exact .stay rfl
  | call source =>
      rw [step, staged?_judge]
      exact .ask source
  | backup draft stage =>
      rw [step]
      split
      · exact .stay rfl
      · exact .stay rfl
      · exact .backup draft (stage.step_move (job.backupJob draft) fault bench)
  | truncate draft written =>
      rw [step]
      split
      next after truncated =>
        obtain ⟨tree, emptied, rfl⟩ := exists_of_map_eq_ok (eq_ok_of_underFault truncated)
        exact .chunk rfl tree (Or.inl emptied)
      · exact .stay rfl
  | write draft written pieces =>
      cases pieces with
      | nil => exact .stay rfl
      | cons piece rest =>
          rw [step]
          split
          next after appended =>
            obtain ⟨tree, grown, rfl⟩ := exists_of_map_eq_ok (eq_ok_of_underFault appended)
            exact .chunk rfl tree (Or.inr ⟨piece, grown⟩)
          · exact .stay rfl
  | done outcome => exact .stay rfl

end PruneStage

end ChunkPrune
