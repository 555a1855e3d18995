import Mathlib.Data.List.Perm.Subperm
import ChunkPrune.Proofs.Prune.Single

/-!
# The order of the steps does not matter

Chunks pruned one after another, in the order of their list, leave each site as pruning its
group alone does. So every order of the steps of the tasks has the same result.
-/

namespace ChunkPrune

namespace PruneStage

variable {job : PruneJob} {site : Site}

/-- The work on a chunk that nothing disturbs. -/
theorem run_finish {bench : Workbench} {stage : PruneStage} {slot : Slot} {content : ByteArray}
    (linkFree : bench.tree.LinkFree) (holds : bench.tree.Holds site slot)
    (atSite : job.chunk.path = site.path) (stages : bench.Stages stage.staged? content) :
    bench.tree.Evolves site.Places (stage.run job bench).1.tree ∧
      (stage.run job bench).1.tree.Holds site
        (slot.finish job.settings.engine job site content stage).1 ∧
      (stage.run job bench).2 = (slot.finish job.settings.engine job site content stage).2 := by
  induction bench, stage using PruneStage.run.induct job generalizing slot content with
  | case1 bench stage outcome done =>
      rw [run_of_outcome done, GroupTask.finish_of_outcome slot job content done]
      exact ⟨.refl _ _, holds, rfl⟩
  | case2 bench stage running next =>
      rename_i inductionHypothesis
      have moved : bench.tree.Evolves site.Places (stage.step job none bench).1.tree :=
        (step_move job none bench stage).evolves linkFree atSite
      obtain ⟨slot', content', holds', stages', same⟩ :=
        step_agrees linkFree holds atSite running stages
      obtain ⟨evolves, ended, outcome⟩ :=
        inductionHypothesis (moved.linkFree linkFree) holds' stages'
      have engines := same job.settings.engine
      rw [ite_self] at engines
      rw [run_of_running running, ← engines]
      exact ⟨moved.trans evolves, ended, outcome⟩

end PruneStage

/-- Pruning a chunk at its site does what `Slot.prune` says, and nothing elsewhere. -/
theorem Chunk.prune_eq (merged : MergedUsage) (settings : PruneSettings) {bench : Workbench}
    {chunk : Chunk} {site : Site} {slot : Slot} (linkFree : bench.tree.LinkFree)
    (holds : bench.tree.Holds site slot) (atSite : chunk.path = site.path) :
    bench.tree.Evolves site.Places (chunk.prune merged settings bench).1.tree ∧
      (chunk.prune merged settings bench).1.tree.Holds site
        (slot.prune settings.engine merged settings site chunk).1 ∧
      (chunk.prune merged settings bench).2 =
        (slot.prune settings.engine merged settings site chunk).2 := by
  have stages : bench.Stages (chunk.begin merged settings).2.staged? .empty := by
    rw [GroupTask.staged?_begin]
    exact Workbench.stages_none _ _
  exact PruneStage.run_finish linkFree holds atSite stages

namespace Slot

variable {engine : Engine} {merged : MergedUsage} {settings : PruneSettings} {site : Site}

/-- One engine leaves no choice. -/
theorem PrunesGroup.unique {slot after after' : Slot} {group : List NumberedChunk}
    {outcomes outcomes' : List NumberedOutcome}
    (prunes : slot.PrunesGroup engine.Only merged settings site group after outcomes)
    (prunes' : slot.PrunesGroup engine.Only merged settings site group after' outcomes') :
    after = after' ∧ outcomes = outcomes' := by
  induction prunes generalizing outcomes' with
  | nil slot =>
      cases prunes'
      exact ⟨rfl, rfl⟩
  | cons chosen allowed others inductionHypothesis =>
      cases prunes' with
      | cons chosen' allowed' others' =>
          subst allowed allowed'
          obtain ⟨rfl, rfl⟩ := inductionHypothesis others'
          exact ⟨rfl, rfl⟩

theorem PrunesGroup.map_fst {engines : Engine → Prop} {slot after : Slot}
    {group : List NumberedChunk} {outcomes : List NumberedOutcome}
    (prunes : slot.PrunesGroup engines merged settings site group after outcomes) :
    outcomes.map (·.1) = group.map (·.1) := by
  induction prunes with
  | nil slot => rfl
  | cons chosen allowed others inductionHypothesis =>
      rw [List.map_cons, List.map_cons, inductionHypothesis]

end Slot

section Sequential

variable {merged : MergedUsage} {settings : PruneSettings}

/-- Whatever other chunks are pruned in between, pruning a list leaves a site as pruning
the chunks of the site alone does. -/
theorem pruneGroup_eq (merged : MergedUsage) (settings : PruneSettings)
    {entries : List NumberedChunk} {bench : Workbench} (linkFree : bench.tree.LinkFree)
    (there : ∀ entry ∈ entries, bench.tree.HasSite entry.2.path)
    {site : Site} {slot : Slot} (holds : bench.tree.Holds site slot) :
    ∃ after, (pruneGroup merged settings bench entries).1.tree.Holds site after ∧
      slot.PrunesGroup settings.engine.Only merged settings site (atPath entries site.path)
        after (((entries.zip (pruneGroup merged settings bench entries).2).filter
          fun pair => pair.1.2.path = site.path).map (·.2)) := by
  induction entries generalizing bench slot with
  | nil => exact ⟨slot, holds, .nil slot⟩
  | cons entry rest inductionHypothesis =>
      obtain ⟨number, chunk⟩ := entry
      obtain ⟨own, ownSlot, place, ownHolds⟩ := there (number, chunk) List.mem_cons_self
      have place : chunk.path = own.path := place
      obtain ⟨moved, ended, outcome⟩ := Chunk.prune_eq merged settings linkFree ownHolds place
      have restThere : ∀ entry ∈ rest,
          (chunk.prune merged settings bench).1.tree.HasSite entry.2.path :=
        fun other member => (there other (List.mem_cons_of_mem _ member)).evolves moved
      by_cases same : own = site
      · subst same
        obtain rfl := ownHolds.unique holds
        obtain ⟨after, afterHolds, prunes⟩ :=
          inductionHypothesis (moved.linkFree linkFree) restThere ended
        refine ⟨after, afterHolds, ?_⟩
        have first : ownSlot.PrunesGroup settings.engine.Only merged settings own
            ((number, chunk) :: atPath rest own.path) after _ := .cons settings.engine rfl prunes
        rw [← outcome] at first
        simpa [atPath, pruneGroup, place] using first
      · obtain ⟨chunkOutside, backupOutside⟩ := Site.not_places_of_ne same
        have kept := holds.of_evolves moved chunkOutside backupOutside
        obtain ⟨after, afterHolds, prunes⟩ :=
          inductionHypothesis (moved.linkFree linkFree) restThere kept
        refine ⟨after, afterHolds, ?_⟩
        have different : chunk.path ≠ site.path := fun equal =>
          same (Site.path_injective (place.symm.trans equal))
        simpa [atPath, pruneGroup, different] using prunes

theorem pruneGroup_map_fst (merged : MergedUsage) (settings : PruneSettings)
    (entries : List NumberedChunk) (bench : Workbench) :
    (pruneGroup merged settings bench entries).2.map (·.1) = entries.map (·.1) := by
  induction entries generalizing bench with
  | nil => rfl
  | cons entry rest inductionHypothesis =>
      rw [pruneGroup, List.map_cons, List.map_cons, inductionHypothesis]

theorem pruneGroup_length (merged : MergedUsage) (settings : PruneSettings)
    (entries : List NumberedChunk) (bench : Workbench) :
    (pruneGroup merged settings bench entries).2.length = entries.length := by
  have numbers := congrArg List.length (pruneGroup_map_fst merged settings entries bench)
  rwa [List.length_map, List.length_map] at numbers

theorem nodup_pruneGroup (merged : MergedUsage) (settings : PruneSettings)
    (chunks : List Chunk) (bench : Workbench) :
    (pruneGroup merged settings bench (numbered chunks)).2.Nodup := by
  apply List.Nodup.of_map (·.1)
  rw [pruneGroup_map_fst, numbered_map_fst]
  exact List.nodup_range

/-- Each outcome of pruning a list is that of an entry of the list. -/
theorem exists_zipped_of_mem_pruneGroup {entries : List NumberedChunk} {bench : Workbench}
    {outcome : NumberedOutcome}
    (member : outcome ∈ (pruneGroup merged settings bench entries).2) :
    ∃ entry, (entry, outcome) ∈ entries.zip (pruneGroup merged settings bench entries).2 := by
  have length := pruneGroup_length merged settings entries bench
  have unzipped : (entries.zip (pruneGroup merged settings bench entries).2).map Prod.snd =
      (pruneGroup merged settings bench entries).2 := List.map_snd_zip (Nat.le_of_eq length)
  rw [← unzipped] at member
  obtain ⟨⟨entry, outcome⟩, zipped, rfl⟩ := List.mem_map.mp member
  exact ⟨entry, zipped⟩

/-- Pruning a list writes at the sites of its chunks only. -/
theorem pruneGroup_evolves {plan : Plan} {entries : List NumberedChunk} {bench : Workbench}
    (linkFree : bench.tree.LinkFree)
    (planned : ∀ entry ∈ entries, ∃ group ∈ plan.groups, entry.2.path = group.1.path)
    (there : ∀ entry ∈ entries, bench.tree.HasSite entry.2.path) :
    bench.tree.Evolves plan.Places (pruneGroup merged settings bench entries).1.tree := by
  induction entries generalizing bench with
  | nil => exact .refl _ _
  | cons entry rest inductionHypothesis =>
      obtain ⟨number, chunk⟩ := entry
      obtain ⟨group, member, place⟩ := planned (number, chunk) List.mem_cons_self
      obtain ⟨own, slot, ownPlace, holds⟩ := there (number, chunk) List.mem_cons_self
      have same : own = group.1 := Site.path_injective (ownPlace.symm.trans place)
      obtain ⟨moved, -, -⟩ := Chunk.prune_eq merged settings linkFree holds ownPlace
      have others := inductionHypothesis (moved.linkFree linkFree)
        (fun other otherMember => planned other (List.mem_cons_of_mem _ otherMember))
        (fun other otherMember => (there other (List.mem_cons_of_mem _ otherMember)).evolves moved)
      exact (moved.mono fun location place => ⟨group, member, same ▸ place⟩).trans others

end Sequential

/-- Two trees that evolved from one tree at the sites of a plan are the same when the sites
have the same files in both. -/
theorem Plan.tree_ext {plan : Plan} {tree left right : FileTree}
    (toLeft : tree.Evolves plan.Places left) (toRight : tree.Evolves plan.Places right)
    (same : ∀ group ∈ plan.groups, ∃ slot, left.Holds group.1 slot ∧ right.Holds group.1 slot) :
    left = right := by
  apply FileTree.ext_entries (toLeft.workingDirectory.trans toRight.workingDirectory.symm)
  intro location
  by_cases place : plan.Places location
  · obtain ⟨group, member, place⟩ := place
    obtain ⟨slot, leftHolds, rightHolds⟩ := same group member
    rcases place with rfl | rfl
    · have below := group.1.location_ne_nil
      rw [← left.entry?_of_ne_nil below, ← right.entry?_of_ne_nil below, leftHolds.chunk,
        rightHolds.chunk]
    · have below := group.1.backup_ne_nil
      rw [← left.entry?_of_ne_nil below, ← right.entry?_of_ne_nil below, leftHolds.backup,
        rightHolds.backup]
  · rcases toLeft.entries location with leftSame | ⟨-, there, -⟩
    · rcases toRight.entries location with rightSame | ⟨-, there, -⟩
      · exact leftSame.trans rightSame.symm
      · exact absurd there place
    · exact absurd there place

/-- Outcomes in any order, put in the order of their numbers. -/
theorem inChunkOrder_of_perm {outcomes ordered : List NumberedOutcome}
    (perm : outcomes.Perm ordered) (increasing : (ordered.map (·.1)).Pairwise (· < ·)) :
    inChunkOrder outcomes = ordered.map (·.2) := by
  have distinct : (ordered.map (·.1)).Nodup := increasing.imp Nat.ne_of_lt
  have sorted : (outcomes.mergeSort fun a b => a.1 ≤ b.1).Pairwise fun a b => a.1 ≤ b.1 := by
    have byBool : (outcomes.mergeSort fun a b => a.1 ≤ b.1).Pairwise
        fun a b => decide (a.1 ≤ b.1) = true :=
      List.pairwise_mergeSort (fun a b c => by simpa using Nat.le_trans)
        (fun a b => by simpa using Nat.le_total a.1 b.1) outcomes
    exact byBool.imp of_decide_eq_true
  have orderedSorted : ordered.Pairwise fun a b => a.1 ≤ b.1 :=
    (List.pairwise_map.mp increasing).imp Nat.le_of_lt
  have samePerm := (List.mergeSort_perm outcomes fun a b => a.1 ≤ b.1).trans perm
  have same : (outcomes.mergeSort fun a b => a.1 ≤ b.1) = ordered := by
    refine List.Perm.eq_of_pairwise ?_ sorted orderedSorted samePerm
    intro a b member other below above
    exact List.inj_on_of_nodup_map distinct (samePerm.mem_iff.mp member) other
      (Nat.le_antisymm below above)
  rw [inChunkOrder, same]

section Interleaved

variable {tree : FileTree} {chunks : List Chunk} {merged : MergedUsage}
  {settings : PruneSettings}

theorem pruneInOrder_eq (bench : Workbench) :
    pruneInOrder merged settings bench chunks =
      ((pruneGroup merged settings bench (numbered chunks)).1,
        .ofOutcomes ((pruneGroup merged settings bench (numbered chunks)).2.map (·.2))) := rfl

/-- The task at one place of a finished batch has left its site, and has the outcomes, as
pruning all chunks in order. -/
theorem Pool.Invariant.task_eq {plan : Plan} {pool : Pool} (linkFree : tree.LinkFree)
    (there : ∀ entry ∈ numbered chunks, tree.HasSite entry.2.path)
    (covers : plan.Covers (numbered chunks))
    (invariant : pool.Invariant settings.engine.Only merged settings plan tree)
    (finished : pool.Finished) {index : Nat} {site : Site} {group : List NumberedChunk}
    (found : plan.groups[index]? = some (site, group)) :
    ∃ task after, pool.tasks[index]? = some task ∧ pool.bench.tree.Holds site after ∧
      (pruneGroup merged settings (.ofTree tree) (numbered chunks)).1.tree.Holds site after ∧
      task.finished.map (·.1) = group.map (·.1) ∧
      task.finished = (((numbered chunks).zip
        (pruneGroup merged settings (.ofTree tree) (numbered chunks)).2).filter
          fun pair => pair.1.2.path = site.path).map (·.2) := by
  have member := List.mem_of_getElem? found
  obtain ⟨entry, listed, path⟩ := covers.exists_entry member
  obtain ⟨own, before, place, holds⟩ := there entry listed
  obtain rfl : own = site := Site.path_injective (place.symm.trans path)
  obtain ⟨task, after, taskFound, ended, prunes⟩ := invariant.finished finished found holds
  have benchLinkFree : (Workbench.ofTree tree).tree.LinkFree := linkFree
  obtain ⟨after', ended', prunes'⟩ :=
    pruneGroup_eq merged settings benchLinkFree there holds
  have whole : group = atPath (numbered chunks) own.path := covers.whole _ member
  have fst := prunes.map_fst
  rw [whole] at prunes
  obtain ⟨rfl, outcomes⟩ := prunes.unique prunes'
  exact ⟨task, after, taskFound, ended, ended', fst, outcomes⟩

/-- The tasks have as many outcomes as there are chunks. -/
theorem Pool.Invariant.outcomes_length {plan : Plan} {pool : Pool} (linkFree : tree.LinkFree)
    (there : ∀ entry ∈ numbered chunks, tree.HasSite entry.2.path)
    (covers : plan.Covers (numbered chunks))
    (invariant : pool.Invariant settings.engine.Only merged settings plan tree)
    (finished : pool.Finished) :
    (pool.tasks.flatMap (·.finished)).length = (numbered chunks).length := by
  have numbers : pool.tasks.map (fun task => task.finished.map (·.1)) =
      plan.groups.map fun group => group.2.map (·.1) := by
    refine List.ext_getElem? fun index => ?_
    rw [List.getElem?_map, List.getElem?_map]
    cases found : plan.groups[index]? with
    | none =>
        have outside : pool.tasks.length ≤ index := by
          rw [invariant.length]
          exact List.getElem?_eq_none_iff.mp found
        rw [List.getElem?_eq_none_iff.mpr outside]
        rfl
    | some group =>
        obtain ⟨task, after, taskFound, -, -, fst, -⟩ :=
          invariant.task_eq linkFree there covers finished found
        rw [taskFound, Option.map_some, Option.map_some, fst]
  rw [← covers.perm.length_eq]
  have lengths := congrArg (fun lists => lists.flatten.length) numbers
  simpa [List.length_flatMap, List.length_flatten, Function.comp_def] using lengths

/-- The tasks have all outcomes, each of them once. -/
theorem Pool.Invariant.outcomes_perm {plan : Plan} {pool : Pool} (linkFree : tree.LinkFree)
    (there : ∀ entry ∈ numbered chunks, tree.HasSite entry.2.path)
    (covers : plan.Covers (numbered chunks))
    (invariant : pool.Invariant settings.engine.Only merged settings plan tree)
    (finished : pool.Finished) :
    (pool.tasks.flatMap (·.finished)).Perm
      (pruneGroup merged settings (.ofTree tree) (numbered chunks)).2 := by
  have distinct := nodup_pruneGroup merged settings chunks (.ofTree tree)
  have length := invariant.outcomes_length linkFree there covers finished
  have sameLength := pruneGroup_length merged settings (numbered chunks) (.ofTree tree)
  have contained : (pruneGroup merged settings (.ofTree tree) (numbered chunks)).2 ⊆
      pool.tasks.flatMap (·.finished) := by
    intro outcome member
    obtain ⟨entry, zipped⟩ := exists_zipped_of_mem_pruneGroup member
    obtain ⟨group, groupMember, path⟩ := covers.exists_group (List.of_mem_zip zipped).1
    obtain ⟨index, found⟩ := List.getElem?_of_mem groupMember
    obtain ⟨task, after, taskFound, -, -, -, outcomes⟩ :=
      invariant.task_eq linkFree there covers finished found
    refine List.mem_flatMap.mpr ⟨task, List.mem_of_getElem? taskFound, ?_⟩
    rw [outcomes]
    refine List.mem_map.mpr ⟨_, List.mem_filter.mpr ⟨zipped, ?_⟩, rfl⟩
    exact decide_eq_true path
  exact ((List.subperm_of_subset distinct contained).perm_of_length_le (by omega)).symm

/-- A finished batch, in whatever order its tasks took their steps, has left the tree and
the result that pruning the chunks one after another leaves. -/
theorem Pool.eq_pruneInOrder (linkFree : tree.LinkFree)
    (there : ∀ chunk ∈ chunks, tree.HasSite chunk.path) {pool : Pool}
    (steps : Pool.Steps settings.engine.Only merged settings (.start (.ofTree tree) chunks) pool)
    (finished : pool.Finished) :
    pool.bench.tree = (pruneInOrder merged settings (.ofTree tree) chunks).1.tree ∧
      pool.result = (pruneInOrder merged settings (.ofTree tree) chunks).2 := by
  have thereNumbered : ∀ entry ∈ numbered chunks, tree.HasSite entry.2.path :=
    fun entry member => there entry.2 (mem_numbered member)
  have benchLinkFree : (Workbench.ofTree tree).tree.LinkFree := linkFree
  obtain ⟨plan, covers, invariant⟩ := steps.exists_invariant linkFree fun chunk member =>
    (there chunk member).imp fun site ⟨_, place, _⟩ => place
  have task_eq : ∀ {index : Nat} {site : Site} {group : List NumberedChunk},
      plan.groups[index]? = some (site, group) → _ :=
    fun found => invariant.task_eq linkFree thereNumbered covers finished found
  rw [pruneInOrder_eq]
  constructor
  · refine plan.tree_ext invariant.evolves ?_ ?_
    · refine pruneGroup_evolves benchLinkFree ?_ thereNumbered
      intro entry member
      exact covers.exists_group member
    · intro group member
      obtain ⟨index, found⟩ := List.getElem?_of_mem member
      obtain ⟨task, after, -, ended, ended', -⟩ := task_eq found
      exact ⟨after, ended, ended'⟩
  · rw [Pool.result, inChunkOrder_of_perm
      (invariant.outcomes_perm linkFree thereNumbered covers finished)]
    rw [pruneGroup_map_fst, numbered_map_fst]
    exact List.pairwise_lt_range

/-- The batch of the program, which handles its groups at the same time, is the batch that
handles all chunks one after another. -/
theorem pruneChunks_eq_pruneInOrder (linkFree : tree.LinkFree)
    (there : ∀ chunk ∈ chunks, tree.HasSite chunk.path) :
    (pruneChunks merged settings (.ofTree tree) chunks).1.tree =
        (pruneInOrder merged settings (.ofTree tree) chunks).1.tree ∧
      (pruneChunks merged settings (.ofTree tree) chunks).2 =
        (pruneInOrder merged settings (.ofTree tree) chunks).2 := by
  have allowed : settings.engine.Only settings.engine := rfl
  obtain ⟨pool, steps, finished, bench, result⟩ :=
    Pool.exists_steps_pruneChunks allowed merged (.ofTree tree) chunks
  rw [← bench, ← result]
  exact Pool.eq_pruneInOrder linkFree there steps finished

end Interleaved

/-- Chunks located for absolute output directories in a tree without links, pruned with an
engine that is a function of its calls: the tasks can finish, and whatever the order of their
steps, the tree and the result are those of one chunk after another. -/
theorem interleaving_eq_pruneInOrder {tree : FileTree} {reports : List AppReport}
    (merged : MergedUsage) (settings : PruneSettings) (linkFree : tree.LinkFree)
    (absolute : ∀ report ∈ reports, report.outputDir.isAbsolute = true) :
    (∃ pool, Pool.Steps settings.engine.Only merged settings
      (.start (.ofTree tree) (Chunk.locate tree reports)) pool ∧ pool.Finished) ∧
    ∀ pool, Pool.Steps settings.engine.Only merged settings
      (.start (.ofTree tree) (Chunk.locate tree reports)) pool → pool.Finished →
      pool.bench.tree =
          (pruneInOrder merged settings (.ofTree tree) (Chunk.locate tree reports)).1.tree ∧
        pool.result =
          (pruneInOrder merged settings (.ofTree tree) (Chunk.locate tree reports)).2 := by
  constructor
  · have allowed : settings.engine.Only settings.engine := rfl
    obtain ⟨pool, steps, finished, -⟩ := Pool.exists_steps_pruneChunks allowed merged
      (.ofTree tree) (Chunk.locate tree reports)
    exact ⟨pool, steps, finished⟩
  · intro pool steps finished
    exact Pool.eq_pruneInOrder linkFree
      (fun chunk => Chunk.hasSite_of_mem_locate linkFree absolute) steps finished

/-! ## A tree with two chunks, of which one has two libraries -/

def bothCharacteristics : Characteristics :=
  ⟨[("chunk_files", .array [.string "a.js", .string "b.js"]), ("entry_module_id", .string "main")]⟩

/-- The usage report of the tree, as it is written. -/
def sharedUsageText : String :=
  "\x7b\"treeShake\":\x7b\"left\":\x7b\"used\":true,\"chunk_characteristics\":" ++
    "\x7b\"entry_module_id\":\"main\",\"chunk_files\":[\"a.js\",\"b.js\"]\x7d\x7d," ++
    "\"right\":\x7b\"used\":true,\"chunk_characteristics\":" ++
    "\x7b\"entry_module_id\":\"main\",\"chunk_files\":[\"a.js\"]\x7d\x7d\x7d\x7d"

def sharedUsageReport : UsageReport :=
  ⟨⟨[("left", ⟨Table.singleton "used" true, some bothCharacteristics⟩),
    ("right", ⟨Table.singleton "used" true, some (loneCharacteristics loneSite.name)⟩)], by
      have ordered : "left" < "right" := by decide
      exact List.pairwise_pair.mpr ordered⟩⟩

theorem read?_sharedUsageText :
    UsageReport.read? sharedUsageText = some sharedUsageReport := by decide +kernel

def sharedReport : AppReport :=
  ⟨"app", sharedUsageReport, (dottedDir 0).join ⟨"u"⟩, dottedDir 0⟩

def sharedChunks : List Chunk :=
  [⟨loneSite.path, "app", "a.js", "left", bothCharacteristics⟩,
    ⟨besideSite.path, "app", "b.js", "left", bothCharacteristics⟩,
    ⟨loneSite.path, "app", "a.js", "right", loneCharacteristics loneSite.name⟩]

def sharedTree : FileTree where
  entries :=
    ⟨[(["dist"], .directory), (["dist", "a.js"], .file "abc".toUTF8),
      (["dist", "b.js"], .file "de".toUTF8), (["dist", "u"], .file sharedUsageText.toUTF8)], by
        have first : ["a.js"] < ["b.js"] := by decide
        have second : ["a.js"] < ["u"] := by decide
        have third : ["b.js"] < ["u"] := by decide
        simpa [Entries.Ordered] using ⟨⟨first, second⟩, third⟩⟩
  workingDirectory := []

theorem linkFree_sharedTree : sharedTree.LinkFree := by
  intro location target found
  cases location with
  | nil => cases found
  | cons name rest =>
      have member := Table.mem_entries_iff.mpr found
      simp [sharedTree] at member

theorem holds_sharedTree :
    sharedTree.Holds loneSite ⟨"abc".toUTF8, none⟩ ∧
      sharedTree.Holds besideSite ⟨"de".toUTF8, none⟩ := by
  have opened : sharedTree.Open [] ["dist"] := ⟨by decide, rfl, trivial⟩
  exact ⟨⟨opened, by decide, rfl, rfl⟩, ⟨opened, by decide, rfl, rfl⟩⟩

theorem locate_sharedTree : Chunk.locate sharedTree [sharedReport] = sharedChunks := by
  obtain ⟨holds, beside⟩ := holds_sharedTree
  have enters : sharedTree.Enters (dottedDir 0) := enters_dottedDir rfl (by decide)
  have place : (dottedDir 0).location = ["dist"] := location_dottedDir 0
  have isFile : sharedTree.isFile loneSite.path = true :=
    (holds.reaches linkFree_sharedTree).isFile holds.chunk
  have besideIsFile : sharedTree.isFile besideSite.path = true :=
    (beside.reaches linkFree_sharedTree).isFile beside.chunk
  have isDirectory : sharedTree.isDirectory sharedReport.outputDir = true := by
    rw [FileTree.isDirectory, sharedReport, enters.lookup true]
  have left : Chunk.locateLibrary sharedTree sharedReport
      ("left", ⟨Table.singleton "used" true, some bothCharacteristics⟩) =
      [loneSite, besideSite].map fun site =>
        ⟨site.path, "app", site.name, "left", bothCharacteristics⟩ := by
    have files : bothCharacteristics.files? = some ([loneSite, besideSite].map (·.name)) := rfl
    refine locateLibrary_sites files enters.absolute (fun site member => ?_) "left" _
    rcases List.mem_cons.mp member with rfl | member
    · exact ⟨by decide, place, isFile⟩
    · rw [List.mem_singleton.mp member]
      exact ⟨by decide, place, besideIsFile⟩
  have right : Chunk.locateLibrary sharedTree sharedReport
      ("right", ⟨Table.singleton "used" true, some (loneCharacteristics loneSite.name)⟩) =
      [⟨loneSite.path, "app", loneSite.name, "right", loneCharacteristics loneSite.name⟩] :=
    locateLibrary_lone (by decide) enters.absolute place isFile
  have entries : sharedReport.report.libraries.entries =
      [("left", ⟨Table.singleton "used" true, some bothCharacteristics⟩),
        ("right", ⟨Table.singleton "used" true, some (loneCharacteristics loneSite.name)⟩)] := rfl
  rw [Chunk.locate, List.flatMap_singleton, if_pos isDirectory, entries, List.flatMap_cons,
    List.flatMap_singleton, left, right]
  rfl

theorem pathGroups_sharedChunks :
    pathGroups sharedChunks =
      [[(0, sharedChunks[0]), (2, sharedChunks[2])], [(1, sharedChunks[1])]] := by
  decide +kernel

/-- The merged usage of the tree. -/
def sharedUsage : MergedUsage := .ofReports "" [sharedReport]

theorem keepFlags_sharedUsage :
    ∀ library ∈ ["left", "right"], (sharedUsage.keepFlags library).isEmpty = false := by
  decide +kernel

/-- The task of a group that has taken up its first chunk. -/
def GroupTask.ofFirst (merged : MergedUsage) (settings : PruneSettings) (number : Nat)
    (chunk : Chunk) (rest : List NumberedChunk) : GroupTask :=
  ⟨[], some ⟨number, (chunk.begin merged settings).1, (chunk.begin merged settings).2⟩, rest⟩

/-- Two groups can be at work at the same time. -/
theorem Pool.steps_begin_both {engines : Engine → Prop} {settings : PruneSettings}
    (allowed : engines settings.engine) (merged : MergedUsage) (bench : Workbench)
    (number other : Nat) (chunk beside : Chunk) (rest others : List NumberedChunk) :
    Pool.Steps engines merged settings
      (.ofGroups bench [(number, chunk) :: rest, (other, beside) :: others])
      ⟨bench, [.ofFirst merged settings number chunk rest,
        .ofFirst merged settings other beside others]⟩ := by
  have first := step_at engines merged settings [] [.ofGroup ((other, beside) :: others)] bench
    (.ofGroup ((number, chunk) :: rest)) allowed
  have second := step_at engines merged settings [.ofFirst merged settings number chunk rest] []
    bench (.ofGroup ((other, beside) :: others)) allowed
  exact .head first (.single second)

/-- Both groups of the tree are at work when one of them is brought to its end, and then the other
one: the result is that of one chunk after another. -/
theorem interleaving_eq_pruneInOrder_sharedTree :
    sharedTree.LinkFree ∧ sharedReport.outputDir.isAbsolute = true ∧
      Chunk.locate sharedTree [sharedReport] = sharedChunks ∧
      ∃ between pool, Pool.Steps steadySettings.engine.Only sharedUsage steadySettings
          (.start (.ofTree sharedTree) sharedChunks) between ∧
        between.tasks.map (fun task => task.current.isSome) = [true, true] ∧
        Pool.Steps steadySettings.engine.Only sharedUsage steadySettings between pool ∧
        pool.Finished ∧
        pool.bench.tree =
          (pruneInOrder sharedUsage steadySettings (.ofTree sharedTree) sharedChunks).1.tree ∧
        pool.result =
          (pruneInOrder sharedUsage steadySettings (.ofTree sharedTree) sharedChunks).2 := by
  have allowed : steadySettings.engine.Only steadySettings.engine := rfl
  have isAbsolute : sharedReport.outputDir.isAbsolute = true := isAbsolute_dottedDir 0
  have absolute : ∀ report ∈ [sharedReport], report.outputDir.isAbsolute = true := by
    intro report member
    rw [List.mem_singleton.mp member]
    exact isAbsolute
  have begun := Pool.steps_begin_both allowed sharedUsage (.ofTree sharedTree) 0 1 sharedChunks[0]
    sharedChunks[1] [(2, sharedChunks[2])] []
  rw [← pathGroups_sharedChunks] at begun
  obtain ⟨pool, others, finished⟩ := Pool.exists_finished allowed sharedUsage steadySettings
    ⟨.ofTree sharedTree, [.ofFirst sharedUsage steadySettings 0 sharedChunks[0]
      [(2, sharedChunks[2])], .ofFirst sharedUsage steadySettings 1 sharedChunks[1] []]⟩
  have whole := begun.trans others
  rw [← locate_sharedTree] at whole
  obtain ⟨tree, result⟩ := (interleaving_eq_pruneInOrder sharedUsage steadySettings
    linkFree_sharedTree absolute).2 pool whole finished
  rw [locate_sharedTree] at tree result
  exact ⟨linkFree_sharedTree, isAbsolute, locate_sharedTree, _, pool, begun, rfl, others, finished,
    tree, result⟩

end ChunkPrune
