import ChunkPrune.Proofs.Prune.Schedule
import ChunkPrune.Proofs.Prune.Finish

/-!
# Tasks do not disturb each other

Every group of chunks has a site of its own. Whatever the order of the steps, the files of
a site are in the end what pruning its group alone makes of them, and the outcomes are the
same as well.
-/

namespace ChunkPrune

/-- What pruning the chunks of a group one after another makes of the files of a site, with
the outcomes, when each call may be answered by another engine. -/
inductive Slot.PrunesGroup (engines : Engine → Prop) (merged : MergedUsage)
    (settings : PruneSettings) (site : Site) :
    Slot → List NumberedChunk → Slot → List NumberedOutcome → Prop
  | nil (slot : Slot) : PrunesGroup engines merged settings site slot [] slot []
  | cons {slot after : Slot} {number : Nat} {chunk : Chunk} {rest : List NumberedChunk}
      {outcomes : List NumberedOutcome} (engine : Engine) (allowed : engines engine)
      (others : PrunesGroup engines merged settings site
        (slot.prune engine merged settings site chunk).1 rest after outcomes) :
      PrunesGroup engines merged settings site slot ((number, chunk) :: rest) after
        ((number, (slot.prune engine merged settings site chunk).2) :: outcomes)

/-- Groups of chunks, each at a site of its own. -/
structure Plan where
  groups : List (Site × List NumberedChunk)
  atSite : ∀ group ∈ groups, ∀ entry ∈ group.2, entry.2.path = group.1.path
  apart : (groups.map (·.1)).Nodup

/-- The locations that the work on the groups may write to. -/
def Plan.Places (plan : Plan) (location : Location) : Prop :=
  ∃ group ∈ plan.groups, group.1.Places location

theorem Plan.index_eq {plan : Plan} {first second : Nat} {site : Site}
    {group other : List NumberedChunk} (here : plan.groups[first]? = some (site, group))
    (there : plan.groups[second]? = some (site, other)) : first = second := by
  have inside : first < (plan.groups.map (·.1)).length := by
    rw [List.length_map]
    exact (List.getElem?_eq_some_iff.mp here).1
  refine (List.getElem?_inj inside plan.apart).mp ?_
  rw [List.getElem?_map, List.getElem?_map, here, there]
  rfl

namespace GroupTask

variable {merged : MergedUsage} {settings : PruneSettings} {engine : Engine}
  {bench : Workbench} {task : GroupTask}

/-- The chunks of a task stand at one site. -/
def AtSite (task : GroupTask) (site : Site) : Prop :=
  (∀ item, task.current = some item → item.job.chunk.path = site.path) ∧
    ∀ entry ∈ task.pending, entry.2.path = site.path

/-! ## What one step does -/

theorem staged?_begin (merged : MergedUsage) (settings : PruneSettings) (chunk : Chunk) :
    (chunk.begin merged settings).2.staged? = none := by
  rcases chunk.begin_cases merged settings with begun | ⟨cause, reason, begun⟩
  · rw [begun]
    rfl
  · rw [begun]
    rfl

/-- A step of a task is a step on its chunk, or leaves the workbench alone. -/
theorem step_cases (merged : MergedUsage) (settings : PruneSettings) (engine : Engine)
    (bench : Workbench) (task : GroupTask) :
    (task.step merged settings engine bench).1 = bench ∧
        (task.step merged settings engine bench).2.staged? = none ∨
      (∃ item, task.current = some item ∧ item.stage.outcome? = none ∧
        task.step merged settings engine bench =
          ((item.stage.step (item.job.withEngine engine) none bench).1,
            { task with current := some { item with
              stage := (item.stage.step (item.job.withEngine engine) none bench).2 } })) := by
  obtain ⟨finished, current, pending⟩ := task
  cases current with
  | none =>
      cases pending with
      | nil => exact Or.inl ⟨rfl, rfl⟩
      | cons entry rest =>
          rw [step_begin]
          exact Or.inl ⟨rfl, staged?_begin merged settings entry.2⟩
  | some item =>
      cases done : item.stage.outcome? with
      | some outcome =>
          rw [step_of_outcome done]
          exact Or.inl ⟨rfl, rfl⟩
      | none =>
          rw [step_of_running done]
          exact Or.inr ⟨item, rfl, done, rfl⟩

theorem step_other_staged {number : Nat} (present : bench.staged.get? number ≠ none)
    (notOwn : task.staged? ≠ some number) :
    (task.step merged settings engine bench).1.staged.get? number =
      bench.staged.get? number := by
  rcases step_cases merged settings engine bench task with
    ⟨same, -⟩ | ⟨item, found, -, stepped⟩
  · rw [same]
  · rw [stepped]
    rw [staged?, found] at notOwn
    exact (PruneStage.step_move _ none bench item.stage).other_staged present notOwn

theorem step_own_or_fresh {number : Nat}
    (owned : (task.step merged settings engine bench).2.staged? = some number) :
    task.staged? = some number ∨ bench.staged.get? number = none := by
  rcases step_cases merged settings engine bench task with
    ⟨-, nothing⟩ | ⟨item, found, -, stepped⟩
  · rw [nothing] at owned
    cases owned
  · rw [stepped] at owned
    rw [staged?, found]
    exact (PruneStage.step_move _ none bench item.stage).own_or_fresh owned

theorem step_own_present
    (present : ∀ number, task.staged? = some number → bench.staged.get? number ≠ none)
    {number : Nat} (owned : (task.step merged settings engine bench).2.staged? = some number) :
    (task.step merged settings engine bench).1.staged.get? number ≠ none := by
  rcases step_cases merged settings engine bench task with
    ⟨-, nothing⟩ | ⟨item, found, -, stepped⟩
  · rw [nothing] at owned
    cases owned
  · rw [stepped] at owned ⊢
    rw [staged?, found] at present
    exact (PruneStage.step_move _ none bench item.stage).own_present present owned

theorem step_evolves {site : Site} (linkFree : bench.tree.LinkFree) (atSite : task.AtSite site) :
    bench.tree.Evolves site.Places (task.step merged settings engine bench).1.tree := by
  rcases step_cases merged settings engine bench task with
    ⟨same, -⟩ | ⟨item, found, -, stepped⟩
  · rw [same]
    exact .refl _ _
  · rw [stepped]
    exact (PruneStage.step_move _ none bench item.stage).evolves linkFree (atSite.1 item found)

theorem step_atSite {site : Site} (atSite : task.AtSite site) :
    (task.step merged settings engine bench).2.AtSite site := by
  obtain ⟨finished, current, pending⟩ := task
  cases current with
  | none =>
      cases pending with
      | nil => exact atSite
      | cons entry rest =>
          rw [step_begin]
          refine ⟨?_, fun other member => atSite.2 other (List.mem_cons_of_mem _ member)⟩
          rintro item ⟨⟩
          exact atSite.2 entry List.mem_cons_self
  | some item =>
      cases done : item.stage.outcome? with
      | some outcome =>
          rw [step_of_outcome done]
          exact ⟨fun _ absurdity => (nomatch absurdity), atSite.2⟩
      | none =>
          rw [step_of_running done]
          refine ⟨?_, atSite.2⟩
          rintro stepped ⟨⟩
          exact atSite.1 item rfl

/-! ## What a task leads to -/

/-- A task can end so, when no other task disturbs it. -/
def Ends (engines : Engine → Prop) (merged : MergedUsage) (settings : PruneSettings)
    (site : Site) (slot : Slot) (content : ByteArray) (task : GroupTask) (after : Slot)
    (outcomes : List NumberedOutcome) : Prop :=
  match task.current with
  | none => ∃ others, outcomes = task.finished ++ others ∧
      slot.PrunesGroup engines merged settings site task.pending after others
  | some item => ∃ engine others, engines engine ∧
      outcomes = task.finished ++
        (item.number, (slot.finish engine item.job site content item.stage).2) :: others ∧
      (slot.finish engine item.job site content item.stage).1.PrunesGroup engines merged
        settings site task.pending after others

/-- However a task can end now, pruning its group from the start can end so. -/
def Follows (engines : Engine → Prop) (merged : MergedUsage) (settings : PruneSettings)
    (site : Site) (before : Slot) (group : List NumberedChunk) (bench : Workbench)
    (task : GroupTask) : Prop :=
  ∃ slot content, bench.tree.Holds site slot ∧ bench.Stages task.staged? content ∧
    ∀ after outcomes, task.Ends engines merged settings site slot content after outcomes →
      before.PrunesGroup engines merged settings site group after outcomes

variable {engines : Engine → Prop} {site : Site} {before : Slot} {group : List NumberedChunk}

theorem follows_ofGroup (holds : bench.tree.Holds site before) :
    (ofGroup group).Follows engines merged settings site before group bench := by
  refine ⟨before, .empty, holds, Workbench.stages_none _ _, ?_⟩
  rintro after outcomes ⟨others, rfl, prunes⟩
  exact prunes

theorem finish_begin (slot : Slot) (chunk : Chunk) (content : ByteArray) :
    slot.finish engine (chunk.begin merged settings).1 site content
      (chunk.begin merged settings).2 = slot.prune engine merged settings site chunk := by
  rw [Slot.prune]
  rcases chunk.begin_cases merged settings with begun | ⟨cause, reason, begun⟩
  · rw [begun]
    rfl
  · rw [begun]
    rfl

theorem finish_withEngine (slot : Slot) (job : PruneJob) (other : Engine) (content : ByteArray)
    (stage : PruneStage) :
    slot.finish engine (job.withEngine other) site content stage =
      slot.finish engine job site content stage := by
  cases stage <;> rfl

theorem finish_of_outcome (slot : Slot) (job : PruneJob) (content : ByteArray)
    {stage : PruneStage} {outcome : Outcome} (done : stage.outcome? = some outcome) :
    slot.finish engine job site content stage = (slot, outcome) := by
  cases stage with
  | done ended => cases done; rfl
  | _ => cases done

/-- The work of a task itself. -/
theorem Follows.step (linkFree : bench.tree.LinkFree) (atSite : task.AtSite site)
    (allowed : engines engine)
    (follows : task.Follows engines merged settings site before group bench) :
    (task.step merged settings engine bench).2.Follows engines merged settings site before group
      (task.step merged settings engine bench).1 := by
  obtain ⟨finished, current, pending⟩ := task
  obtain ⟨slot, content, holds, stages, leads⟩ := follows
  cases current with
  | none =>
      cases pending with
      | nil => exact ⟨slot, content, holds, stages, leads⟩
      | cons entry rest =>
          obtain ⟨number, chunk⟩ := entry
          rw [step_begin]
          refine ⟨slot, content, holds, ?_, ?_⟩
          · show bench.Stages (chunk.begin merged settings).2.staged? content
            rw [staged?_begin]
            exact Workbench.stages_none _ _
          · rintro after outcomes ⟨chosen, others, chosenAllowed, rfl, prunes⟩
            simp only [finish_begin] at prunes ⊢
            exact leads _ _ ⟨_, rfl, .cons chosen chosenAllowed prunes⟩
  | some item =>
      cases done : item.stage.outcome? with
      | some outcome =>
          rw [step_of_outcome done]
          refine ⟨slot, content, holds, Workbench.stages_none _ _, ?_⟩
          rintro after outcomes ⟨others, rfl, prunes⟩
          refine leads _ _ ⟨engine, others, allowed, ?_, ?_⟩
          · rw [finish_of_outcome slot item.job content done, List.append_assoc,
              List.singleton_append]
          · rwa [finish_of_outcome slot item.job content done]
      | none =>
          rw [step_of_running done]
          have itemAtSite : (item.job.withEngine engine).chunk.path = site.path :=
            atSite.1 item rfl
          obtain ⟨slot', content', holds', stages', same⟩ :=
            PruneStage.step_agrees linkFree holds itemAtSite done stages
          refine ⟨slot', content', holds', stages', ?_⟩
          rintro after outcomes ⟨chosen, others, chosenAllowed, rfl, prunes⟩
          have ending := same chosen
          simp only [finish_withEngine] at ending
          rw [ending] at prunes
          refine leads _ _ ⟨_, others, ?_, ?_, prunes⟩
          · split
            · exact allowed
            · exact chosenAllowed
          · simp only [ending]

/-- Work at other sites does not disturb a task. -/
theorem Follows.frame {after : Workbench} {places : Location → Prop}
    (follows : task.Follows engines merged settings site before group bench)
    (evolves : bench.tree.Evolves places after.tree) (chunkOutside : ¬ places site.location)
    (backupOutside : ¬ places site.backup)
    (kept : ∀ number, task.staged? = some number →
      after.staged.get? number = bench.staged.get? number) :
    task.Follows engines merged settings site before group after := by
  obtain ⟨slot, content, holds, stages, leads⟩ := follows
  refine ⟨slot, content, holds.of_evolves evolves chunkOutside backupOutside, ?_, leads⟩
  intro number owned
  rw [kept number owned]
  exact stages number owned

theorem Follows.finished (follows : task.Follows engines merged settings site before group bench)
    (done : task.Finished) :
    ∃ after, bench.tree.Holds site after ∧
      before.PrunesGroup engines merged settings site group after task.finished := by
  obtain ⟨slot, content, holds, -, leads⟩ := follows
  refine ⟨slot, holds, leads slot task.finished ?_⟩
  rw [Ends, done.1, done.2]
  exact ⟨[], (List.append_nil _).symm, .nil slot⟩

end GroupTask

/-! ## The invariant of a batch -/

theorem Plan.groups_index {plan : Plan} {location : Location} {index : Nat} {site : Site}
    {group : List NumberedChunk} (found : plan.groups[index]? = some (site, group))
    (place : site.Places location) : plan.Places location :=
  ⟨(site, group), List.mem_of_getElem? found, place⟩

namespace Pool

/-- Each staged file in use is there and belongs to one task. -/
structure Apart (pool : Pool) : Prop where
  present : ∀ {index : Nat} {task : GroupTask} {number : Nat},
    pool.tasks[index]? = some task → task.staged? = some number →
    pool.bench.staged.get? number ≠ none
  distinct : ∀ {index other : Nat} {task otherTask : GroupTask} {number : Nat},
    pool.tasks[index]? = some task → pool.tasks[other]? = some otherTask →
    task.staged? = some number → otherTask.staged? = some number → index = other

/-- The tasks belong to the groups of a plan, and those whose chunks were there in a tree
have done so far what pruning their group does with it. -/
structure Invariant (engines : Engine → Prop) (merged : MergedUsage) (settings : PruneSettings)
    (plan : Plan) (tree : FileTree) (pool : Pool) : Prop where
  apart : pool.Apart
  linkFree : pool.bench.tree.LinkFree
  evolves : tree.Evolves plan.Places pool.bench.tree
  length : pool.tasks.length = plan.groups.length
  atSite : ∀ {index : Nat} {site : Site} {group : List NumberedChunk} {task : GroupTask},
    plan.groups[index]? = some (site, group) → pool.tasks[index]? = some task → task.AtSite site
  follows : ∀ {index : Nat} {site : Site} {group : List NumberedChunk} {task : GroupTask},
    plan.groups[index]? = some (site, group) → pool.tasks[index]? = some task →
    ∀ before, tree.Holds site before →
    task.Follows engines merged settings site before group pool.bench

variable {engines : Engine → Prop} {merged : MergedUsage} {settings : PruneSettings}
  {plan : Plan} {tree : FileTree} {pool next : Pool}

/-- What stands in the place of a task after another one was put in. -/
theorem getElem?_set_cases {tasks : List GroupTask} {index other : Nat} {task found : GroupTask}
    (after : (tasks.set index task)[other]? = some found) :
    index = other ∧ found = task ∨ index ≠ other ∧ tasks[other]? = some found := by
  rw [List.getElem?_set] at after
  split at after
  next same =>
    split at after
    · exact Or.inl ⟨same, (Option.some.inj after).symm⟩
    · cases after
  next different => exact Or.inr ⟨different, after⟩

theorem Apart.step (apart : pool.Apart) (step : Step engines merged settings pool next) :
    next.Apart := by
  obtain ⟨allowed, found⟩ := step
  next index task engine =>
  have own : ∀ {other : Nat} {otherTask : GroupTask} {number : Nat}, index ≠ other →
      pool.tasks[other]? = some otherTask → otherTask.staged? = some number →
      task.staged? ≠ some number :=
    fun different otherFound otherOwned owned =>
      different (apart.distinct found otherFound owned otherOwned)
  have notTaken : ∀ {other : Nat} {otherTask : GroupTask} {number : Nat}, index ≠ other →
      pool.tasks[other]? = some otherTask → otherTask.staged? = some number →
      (task.step merged settings engine pool.bench).2.staged? ≠ some number := by
    intro other otherTask number different otherFound otherOwned owned
    rcases GroupTask.step_own_or_fresh owned with before | fresh
    · exact own different otherFound otherOwned before
    · exact apart.present otherFound otherOwned fresh
  constructor
  · intro other otherTask number otherFound owned
    rcases getElem?_set_cases otherFound with ⟨rfl, rfl⟩ | ⟨different, otherFound⟩
    · exact GroupTask.step_own_present (fun number => apart.present found) owned
    · have there := apart.present otherFound owned
      show (task.step merged settings engine pool.bench).1.staged.get? number ≠ none
      rwa [GroupTask.step_other_staged there (own different otherFound owned)]
  · intro first second firstTask secondTask number firstFound secondFound firstOwned secondOwned
    rcases getElem?_set_cases firstFound with ⟨rfl, rfl⟩ | ⟨firstDifferent, firstFound⟩
    · rcases getElem?_set_cases secondFound with ⟨rfl, rfl⟩ | ⟨different, secondFound⟩
      · rfl
      · exact absurd firstOwned (notTaken different secondFound secondOwned)
    · rcases getElem?_set_cases secondFound with ⟨rfl, rfl⟩ | ⟨-, secondFound⟩
      · exact absurd secondOwned (notTaken firstDifferent firstFound firstOwned)
      · exact apart.distinct firstFound secondFound firstOwned secondOwned

theorem Invariant.step (invariant : pool.Invariant engines merged settings plan tree)
    (step : Step engines merged settings pool next) :
    next.Invariant engines merged settings plan tree := by
  have apart := invariant.apart.step step
  obtain ⟨allowed, found⟩ := step
  next index task engine =>
  have inside : index < plan.groups.length := by
    rw [← invariant.length]
    exact (List.getElem?_eq_some_iff.mp found).1
  obtain ⟨⟨ownSite, ownGroup⟩, ownFound⟩ : ∃ own, plan.groups[index]? = some own :=
    ⟨_, List.getElem?_eq_getElem inside⟩
  have ownAtSite := invariant.atSite ownFound found
  have moved : pool.bench.tree.Evolves ownSite.Places
      (task.step merged settings engine pool.bench).1.tree :=
    GroupTask.step_evolves invariant.linkFree ownAtSite
  refine ⟨apart, moved.linkFree invariant.linkFree, ?_, ?_, ?_, ?_⟩
  · exact invariant.evolves.trans
      (moved.mono fun location place => plan.groups_index ownFound place)
  · exact (List.length_set).trans invariant.length
  · intro other site group otherTask groupFound otherFound
    rcases getElem?_set_cases otherFound with ⟨rfl, rfl⟩ | ⟨-, otherFound⟩
    · exact GroupTask.step_atSite (invariant.atSite groupFound found)
    · exact invariant.atSite groupFound otherFound
  · intro other site group otherTask groupFound otherFound before holds
    rcases getElem?_set_cases otherFound with ⟨rfl, rfl⟩ | ⟨different, otherFound⟩
    · exact (invariant.follows groupFound found before holds).step invariant.linkFree
        (invariant.atSite groupFound found) allowed
    · have sitesDiffer : ownSite ≠ site := by
        rintro rfl
        exact different (plan.index_eq ownFound groupFound)
      obtain ⟨chunkOutside, backupOutside⟩ := Site.not_places_of_ne sitesDiffer
      refine (invariant.follows groupFound otherFound before holds).frame moved chunkOutside
        backupOutside ?_
      intro number owned
      apply GroupTask.step_other_staged (invariant.apart.present otherFound owned)
      exact fun ownOwned => different (invariant.apart.distinct found otherFound ownOwned owned)

theorem invariant_ofGroups (engines : Engine → Prop) (merged : MergedUsage)
    (settings : PruneSettings) (plan : Plan) {bench : Workbench} (linkFree : bench.tree.LinkFree) :
    (ofGroups bench (plan.groups.map (·.2))).Invariant engines merged settings plan
      bench.tree := by
  have fresh : ∀ {index : Nat} {task : GroupTask},
      (ofGroups bench (plan.groups.map (·.2))).tasks[index]? = some task →
      ∃ site group, plan.groups[index]? = some (site, group) ∧ task = .ofGroup group := by
    intro index task found
    rw [ofGroups, List.getElem?_map, List.getElem?_map, Option.map_map,
      Option.map_eq_some_iff] at found
    obtain ⟨⟨site, group⟩, groupFound, rfl⟩ := found
    exact ⟨site, group, groupFound, rfl⟩
  refine ⟨⟨?_, ?_⟩, linkFree, .refl _ _, by simp [ofGroups], ?_, ?_⟩
  · intro index task number found owned
    obtain ⟨site, group, -, rfl⟩ := fresh found
    cases owned
  · intro index other task otherTask number found otherFound owned
    obtain ⟨site, group, -, rfl⟩ := fresh found
    cases owned
  · intro index site group task groupFound found
    obtain ⟨site', group', groupFound', rfl⟩ := fresh found
    rw [groupFound] at groupFound'
    cases groupFound'
    exact ⟨fun _ absurdity => (nomatch absurdity), plan.atSite _ (List.mem_of_getElem? groupFound)⟩
  · intro index site group task groupFound found before holds
    obtain ⟨site', group', groupFound', rfl⟩ := fresh found
    rw [groupFound] at groupFound'
    cases groupFound'
    exact GroupTask.follows_ofGroup holds

theorem Steps.invariant (steps : Steps engines merged settings pool next)
    (invariant : pool.Invariant engines merged settings plan tree) :
    next.Invariant engines merged settings plan tree := by
  induction steps with
  | refl => exact invariant
  | tail _ step inductionHypothesis => exact inductionHypothesis.step step

/-- In a finished batch each group was pruned as if it had been the only one. -/
theorem Invariant.finished (invariant : pool.Invariant engines merged settings plan tree)
    (finished : pool.Finished) {site : Site} {group : List NumberedChunk} {index : Nat}
    (found : plan.groups[index]? = some (site, group)) {before : Slot}
    (holds : tree.Holds site before) :
    ∃ task after, pool.tasks[index]? = some task ∧ pool.bench.tree.Holds site after ∧
      before.PrunesGroup engines merged settings site group after task.finished := by
  have inside : index < pool.tasks.length := by
    rw [invariant.length]
    exact (List.getElem?_eq_some_iff.mp found).1
  have taskFound := List.getElem?_eq_getElem inside
  obtain ⟨after, afterHolds, prunes⟩ :=
    (invariant.follows found taskFound before holds).finished
      (finished _ (List.getElem_mem inside))
  exact ⟨_, after, taskFound, afterHolds, prunes⟩

end Pool

end ChunkPrune
