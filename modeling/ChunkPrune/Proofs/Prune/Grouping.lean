import Mathlib.Data.List.Induction
import Mathlib.Data.List.Nodup
import ChunkPrune.Proofs.Prune.Interleaving

/-!
# The groups of a list of chunks

Chunks are put into one group exactly when they have one path. At sites, one path is one
site, so the groups are a plan, and each of them lists the chunks of its site in their order.
-/

namespace ChunkPrune

/-- The chunks of a list with their places in it. -/
def numbered (chunks : List Chunk) : List NumberedChunk :=
  chunks.zipIdx.map fun (chunk, index) => (index, chunk)

/-- The chunks of a list at one site, in their order. -/
def atPath (entries : List NumberedChunk) (path : Path) : List NumberedChunk :=
  entries.filter fun entry => entry.2.path = path

/-- A plan has the chunks of a list and no others, each at its site. -/
structure Plan.Covers (plan : Plan) (entries : List NumberedChunk) : Prop where
  nonempty : ∀ group ∈ plan.groups, group.2 ≠ []
  whole : ∀ group ∈ plan.groups, group.2 = atPath entries group.1.path
  perm : (plan.groups.flatMap (·.2)).Perm entries

theorem numbered_map_fst (chunks : List Chunk) :
    (numbered chunks).map (·.1) = List.range chunks.length := by
  rw [numbered, List.map_map]
  show chunks.zipIdx.map Prod.snd = _
  rw [List.zipIdx_map_snd, List.range_eq_range']

theorem numbered_map_snd (chunks : List Chunk) : (numbered chunks).map (·.2) = chunks := by
  rw [numbered, List.map_map]
  exact List.zipIdx_map_fst 0 chunks

theorem pathGroups_eq_foldl (chunks : List Chunk) :
    pathGroups chunks =
      (numbered chunks).foldl (fun groups entry => addToGroups entry groups) [] := by
  rw [numbered, List.foldl_map]
  rfl

theorem addToGroups_append {entry : NumberedChunk} {left : List (List NumberedChunk)}
    (elsewhere : ∀ group ∈ left, ∀ other ∈ group,
      other.2.path.sameSteps entry.2.path = false)
    (right : List (List NumberedChunk)) :
    addToGroups entry (left ++ right) = left ++ addToGroups entry right := by
  induction left with
  | nil => rfl
  | cons group rest inductionHypothesis =>
      have apart : (group.any fun other => other.2.path.sameSteps entry.2.path) = false :=
        List.any_eq_false.mpr fun other member => by
          rw [elsewhere group List.mem_cons_self other member]
          exact Bool.false_ne_true
      rw [List.cons_append, addToGroups, if_neg (by rw [apart]; exact Bool.false_ne_true),
        inductionHypothesis fun other member => elsewhere other (List.mem_cons_of_mem _ member),
        List.cons_append]

theorem atPath_append_of_ne {entries : List NumberedChunk} {entry : NumberedChunk} {path : Path}
    (different : entry.2.path ≠ path) : atPath (entries ++ [entry]) path = atPath entries path := by
  simp [atPath, different]

theorem atPath_append_of_eq {entries : List NumberedChunk} {entry : NumberedChunk} {path : Path}
    (same : entry.2.path = path) :
    atPath (entries ++ [entry]) path = atPath entries path ++ [entry] := by
  simp [atPath, same]

namespace Plan

variable {plan : Plan} {entries : List NumberedChunk} {entry : NumberedChunk} {site : Site}

theorem not_sameSteps (plan : Plan) {group : Site × List NumberedChunk}
    (member : group ∈ plan.groups)
    (different : group.1 ≠ site) (place : entry.2.path = site.path) :
    ∀ other ∈ group.2, other.2.path.sameSteps entry.2.path = false := by
  intro other otherMember
  rw [plan.atSite group member other otherMember, place, Bool.eq_false_iff]
  exact fun same => different (Site.sameSteps_path_iff.mp same)

/-- The plan with a group for a chunk at another site. -/
def withSite (plan : Plan) (entry : NumberedChunk) (site : Site)
    (place : entry.2.path = site.path) (free : ∀ group ∈ plan.groups, group.1 ≠ site) : Plan where
  groups := plan.groups ++ [(site, [entry])]
  atSite := by
    intro group member other otherMember
    rcases List.mem_append.mp member with member | member
    · exact plan.atSite group member other otherMember
    · obtain rfl := List.mem_singleton.mp member
      obtain rfl := List.mem_singleton.mp otherMember
      exact place
  apart := by
    rw [List.map_append]
    refine List.nodup_append.mpr ⟨plan.apart, List.nodup_singleton _, ?_⟩
    intro first firstMember second secondMember
    obtain ⟨group, member, rfl⟩ := List.mem_map.mp firstMember
    rw [List.map_singleton, List.mem_singleton] at secondMember
    rw [secondMember]
    exact free group member

/-- The plan with one more chunk in one of its groups. -/
def withChunk (plan : Plan) (entry : NumberedChunk)
    {left right : List (Site × List NumberedChunk)} {group : List NumberedChunk}
    (shape : plan.groups = left ++ (site, group) :: right)
    (place : entry.2.path = site.path) : Plan where
  groups := left ++ (site, group ++ [entry]) :: right
  atSite := by
    intro other member chunk chunkMember
    have kept := plan.atSite
    rw [shape] at kept
    rcases List.mem_append.mp member with member | member
    · exact kept other (List.mem_append_left _ member) chunk chunkMember
    · rcases List.mem_cons.mp member with rfl | member
      · rcases List.mem_append.mp chunkMember with chunkMember | chunkMember
        · exact kept (site, group) (by simp) chunk chunkMember
        · exact List.mem_singleton.mp chunkMember ▸ place
      · exact kept other (by simp [member]) chunk chunkMember
  apart := by
    have apart := plan.apart
    rw [shape] at apart
    simpa using apart

/-- Other groups of a plan have other sites. -/
theorem ne_of_mem_others {left right : List (Site × List NumberedChunk)}
    {group : List NumberedChunk} (shape : plan.groups = left ++ (site, group) :: right)
    {other : Site × List NumberedChunk} (member : other ∈ left ++ right) :
    other ∈ plan.groups ∧ other.1 ≠ site := by
  constructor
  · rw [shape]
    rcases List.mem_append.mp member with member | member
    · exact List.mem_append_left _ member
    · exact List.mem_append_right _ (List.mem_cons_of_mem _ member)
  · intro same
    have sites : (left.map (·.1) ++ site :: right.map (·.1)).Nodup := by
      simpa [shape] using plan.apart
    have distinct := (List.nodup_middle.mp sites).notMem
    rw [← List.map_append, ← same] at distinct
    exact distinct (List.mem_map_of_mem member)

theorem mem_withChunk {left right : List (Site × List NumberedChunk)}
    {group : List NumberedChunk} (shape : plan.groups = left ++ (site, group) :: right)
    (place : entry.2.path = site.path) {other : Site × List NumberedChunk}
    (member : other ∈ (plan.withChunk entry shape place).groups) :
    other ∈ plan.groups ∧ other.1 ≠ site ∨ other = (site, group ++ [entry]) := by
  rcases List.mem_append.mp member with member | member
  · exact Or.inl (ne_of_mem_others shape (List.mem_append_left _ member))
  · rcases List.mem_cons.mp member with rfl | member
    · exact Or.inr rfl
    · exact Or.inl (ne_of_mem_others shape (List.mem_append_right _ member))

/-- Each group of a plan for a list has some entry of the list, at the site of the group. -/
theorem Covers.exists_entry (covers : plan.Covers entries) {group : Site × List NumberedChunk}
    (member : group ∈ plan.groups) : ∃ entry ∈ entries, entry.2.path = group.1.path := by
  obtain ⟨entry, entryMember⟩ := List.exists_mem_of_ne_nil _ (covers.nonempty group member)
  have listed := List.mem_flatMap.mpr ⟨group, member, entryMember⟩
  exact ⟨entry, covers.perm.mem_iff.mp listed, plan.atSite group member entry entryMember⟩

/-- Each entry of a list is in some group of a plan for it, at the site of the group. -/
theorem Covers.exists_group (covers : plan.Covers entries) (member : entry ∈ entries) :
    ∃ group ∈ plan.groups, entry.2.path = group.1.path := by
  obtain ⟨group, groupMember, entryMember⟩ :=
    List.mem_flatMap.mp (covers.perm.mem_iff.mpr member)
  exact ⟨group, groupMember, plan.atSite group groupMember entry entryMember⟩

theorem Covers.atPath_eq_nil (covers : plan.Covers entries)
    (free : ∀ group ∈ plan.groups, group.1 ≠ site) : atPath entries site.path = [] := by
  apply List.filter_eq_nil_iff.mpr
  intro other member same
  obtain ⟨group, groupMember, path⟩ := covers.exists_group member
  exact free group groupMember (Site.path_injective (path.symm.trans (of_decide_eq_true same)))

theorem Covers.whole_append (covers : plan.Covers entries) (place : entry.2.path = site.path)
    {group : Site × List NumberedChunk} (member : group ∈ plan.groups)
    (different : group.1 ≠ site) : group.2 = atPath (entries ++ [entry]) group.1.path := by
  have otherPath : entry.2.path ≠ group.1.path := fun same =>
    different (Site.path_injective (same.symm.trans place))
  rw [atPath_append_of_ne otherPath]
  exact covers.whole group member

theorem Covers.withSite (covers : plan.Covers entries) (place : entry.2.path = site.path)
    (free : ∀ group ∈ plan.groups, group.1 ≠ site) :
    (plan.withSite entry site place free).Covers (entries ++ [entry]) := by
  refine ⟨?_, ?_, ?_⟩
  · intro group member
    rcases List.mem_append.mp member with member | member
    · exact covers.nonempty group member
    · obtain rfl := List.mem_singleton.mp member
      exact List.cons_ne_nil _ _
  · intro group member
    rcases List.mem_append.mp member with member | member
    · exact covers.whole_append place member (free group member)
    · obtain rfl := List.mem_singleton.mp member
      rw [atPath_append_of_eq place, covers.atPath_eq_nil free, List.nil_append]
  · rw [Plan.withSite, List.flatMap_append]
    exact covers.perm.append_right [entry]

theorem Covers.withChunk (covers : plan.Covers entries)
    {left right : List (Site × List NumberedChunk)} {group : List NumberedChunk}
    (shape : plan.groups = left ++ (site, group) :: right) (place : entry.2.path = site.path) :
    (plan.withChunk entry shape place).Covers (entries ++ [entry]) := by
  have here : (site, group) ∈ plan.groups := by rw [shape]; simp
  refine ⟨?_, ?_, ?_⟩
  · intro other member
    rcases mem_withChunk shape place member with ⟨old, -⟩ | rfl
    · exact covers.nonempty other old
    · simp
  · intro other member
    rcases mem_withChunk shape place member with ⟨old, different⟩ | rfl
    · exact covers.whole_append place old different
    · rw [atPath_append_of_eq place, ← covers.whole _ here]
  · have perm := covers.perm
    have moved : ((left ++ (site, group ++ [entry]) :: right).flatMap (·.2)).Perm
        ((left ++ (site, group) :: right).flatMap (·.2) ++ [entry]) := by
      simp only [List.flatMap_append, List.flatMap_cons, List.append_assoc]
      exact ((List.perm_append_comm).append_left _).append_left _
    rw [shape] at perm
    exact moved.trans (perm.append_right [entry])

theorem addToGroups_withSite (plan : Plan) (place : entry.2.path = site.path)
    (free : ∀ group ∈ plan.groups, group.1 ≠ site) :
    addToGroups entry (plan.groups.map (·.2)) =
      (plan.withSite entry site place free).groups.map (·.2) := by
  have elsewhere : ∀ group ∈ plan.groups.map (·.2), ∀ other ∈ group,
      other.2.path.sameSteps entry.2.path = false := by
    intro group member
    obtain ⟨pair, pairMember, rfl⟩ := List.mem_map.mp member
    exact plan.not_sameSteps pairMember (free pair pairMember) place
  have added := addToGroups_append elsewhere []
  rw [List.append_nil] at added
  rw [added, withSite, List.map_append]
  rfl

theorem addToGroups_withChunk {left right : List (Site × List NumberedChunk)}
    {group : List NumberedChunk} (shape : plan.groups = left ++ (site, group) :: right)
    (nonempty : group ≠ []) (place : entry.2.path = site.path) :
    addToGroups entry (plan.groups.map (·.2)) =
      (plan.withChunk entry shape place).groups.map (·.2) := by
  have elsewhere : ∀ other ∈ left.map (·.2), ∀ chunk ∈ other,
      chunk.2.path.sameSteps entry.2.path = false := by
    intro other member
    obtain ⟨pair, pairMember, rfl⟩ := List.mem_map.mp member
    obtain ⟨old, different⟩ := ne_of_mem_others shape (List.mem_append_left _ pairMember)
    exact plan.not_sameSteps old different place
  have here : (site, group) ∈ plan.groups := by rw [shape]; simp
  have found : (group.any fun other => other.2.path.sameSteps entry.2.path) = true := by
    obtain ⟨first, firstMember⟩ := List.exists_mem_of_ne_nil _ nonempty
    refine List.any_eq_true.mpr ⟨first, firstMember, ?_⟩
    rw [plan.atSite _ here first firstMember, place]
    exact Site.sameSteps_path_iff.mpr rfl
  rw [shape, List.map_append, List.map_cons, addToGroups_append elsewhere, addToGroups,
    if_pos found, withChunk, List.map_append, List.map_cons]

theorem exists_covers (sited : ∀ entry ∈ entries, ∃ site : Site, entry.2.path = site.path) :
    ∃ plan : Plan, plan.Covers entries ∧
      entries.foldl (fun groups entry => addToGroups entry groups) [] = plan.groups.map (·.2) := by
  induction entries using List.reverseRecOn with
  | nil =>
      exact ⟨⟨[], fun _ absurdity => absurd absurdity List.not_mem_nil, List.nodup_nil⟩,
        ⟨fun _ absurdity => absurd absurdity List.not_mem_nil,
          fun _ absurdity => absurd absurdity List.not_mem_nil, .refl _⟩, rfl⟩
  | append_singleton entries entry inductionHypothesis =>
      obtain ⟨plan, covers, folded⟩ :=
        inductionHypothesis fun other member => sited other (List.mem_append_left _ member)
      obtain ⟨site, place⟩ := sited entry (by simp)
      rw [List.foldl_append, folded, List.foldl_cons, List.foldl_nil]
      by_cases present : ∃ group ∈ plan.groups, group.1 = site
      · obtain ⟨⟨site', group⟩, member, rfl⟩ := present
        obtain ⟨left, right, shape⟩ := List.append_of_mem member
        exact ⟨plan.withChunk entry shape place, covers.withChunk shape place,
          addToGroups_withChunk shape (covers.nonempty _ member) place⟩
      · have free : ∀ group ∈ plan.groups, group.1 ≠ site :=
          fun group member same => present ⟨group, member, same⟩
        exact ⟨plan.withSite entry site place free, covers.withSite place free,
          plan.addToGroups_withSite place free⟩

end Plan

/-! ## What a batch does to a site -/

section Batch

variable {engines : Engine → Prop} {merged : MergedUsage} {settings : PruneSettings}
  {chunks : List Chunk} {tree : FileTree} {pool : Pool}

theorem mem_numbered {entry : NumberedChunk} (member : entry ∈ numbered chunks) :
    entry.2 ∈ chunks := by
  rw [← numbered_map_snd chunks]
  exact List.mem_map_of_mem member

/-- The batch of a list of chunks at sites keeps the invariant of a plan for the list. -/
theorem Pool.Steps.exists_invariant (linkFree : tree.LinkFree)
    (sited : ∀ chunk ∈ chunks, ∃ site : Site, chunk.path = site.path)
    (steps : Pool.Steps engines merged settings (.start (.ofTree tree) chunks) pool) :
    ∃ plan : Plan, plan.Covers (numbered chunks) ∧
      pool.Invariant engines merged settings plan tree := by
  obtain ⟨plan, covers, groups⟩ := Plan.exists_covers fun entry member =>
    sited entry.2 (mem_numbered member)
  rw [← pathGroups_eq_foldl] at groups
  have benchLinkFree : (Workbench.ofTree tree).tree.LinkFree := linkFree
  refine ⟨plan, covers, steps.invariant ?_⟩
  rw [Pool.start, groups]
  exact Pool.invariant_ofGroups engines merged settings plan benchLinkFree

/-- A finished batch has pruned, at each site whose chunk was there, the chunks of the list
that have this path. -/
theorem Pool.Steps.prunesGroup (linkFree : tree.LinkFree)
    (sited : ∀ chunk ∈ chunks, ∃ site : Site, chunk.path = site.path)
    (steps : Pool.Steps engines merged settings (.start (.ofTree tree) chunks) pool)
    (finished : pool.Finished) {site : Site} {before : Slot} (holds : tree.Holds site before) :
    ∃ after outcomes, pool.bench.tree.Holds site after ∧
      before.PrunesGroup engines merged settings site (atPath (numbered chunks) site.path) after
        outcomes := by
  obtain ⟨plan, covers, invariant⟩ := steps.exists_invariant linkFree sited
  by_cases planned : ∃ group ∈ plan.groups, group.1 = site
  · obtain ⟨⟨own, group⟩, member, rfl⟩ := planned
    obtain ⟨index, found⟩ := List.getElem?_of_mem member
    obtain ⟨task, after, -, ended, prunes⟩ := invariant.finished finished found holds
    have whole : group = atPath (numbered chunks) own.path := covers.whole _ member
    exact ⟨after, task.finished, ended, whole ▸ prunes⟩
  · have free : ∀ group ∈ plan.groups, group.1 ≠ site :=
      fun group member same => planned ⟨group, member, same⟩
    have outside : ∀ location, plan.Places location →
        location ≠ site.location ∧ location ≠ site.backup := by
      rintro location ⟨group, member, place⟩
      obtain ⟨chunkOutside, backupOutside⟩ := Site.not_places_of_ne (free group member)
      exact ⟨fun same => chunkOutside (same ▸ place), fun same => backupOutside (same ▸ place)⟩
    rw [covers.atPath_eq_nil free]
    exact ⟨before, [], holds.of_evolves invariant.evolves
      (fun place => (outside _ place).1 rfl) fun place => (outside _ place).2 rfl, .nil before⟩

end Batch

end ChunkPrune
