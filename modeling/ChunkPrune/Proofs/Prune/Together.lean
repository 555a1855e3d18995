import Mathlib.Data.List.Pairwise
import ChunkPrune.Proofs.FileTree.Links
import ChunkPrune.Proofs.Prune.Calls
import ChunkPrune.Proofs.Prune.Single

/-!
# Which chunks are pruned one after another

The chunks of one group are pruned by one task. Two located chunks come into one group exactly
when they have one path, so chunks of one group denote the same file. The converse holds for
paths that tell where they lead. It fails for a link to a chunk, whose path is another one: the
chunk behind the link and the chunk itself are one file in two groups.
-/

namespace ChunkPrune

/-- The chunks at two places of a list are in one group. -/
def Together (chunks : List Chunk) (first second : Nat) : Prop :=
  ∃ group ∈ pathGroups chunks, first ∈ group.map (·.1) ∧ second ∈ group.map (·.1)

/-- No chunk of one group has the components of a chunk of the other. -/
def GroupsApart (left right : List NumberedChunk) : Prop :=
  ∀ entry ∈ left, ∀ other ∈ right, entry.2.path.components ≠ other.2.path.components

instance : Std.Symm GroupsApart where
  symm _ _ apart entry entryMember other otherMember same :=
    apart other otherMember entry entryMember same.symm

/-- The chunks of one group have paths with the same components, and no two groups share one. -/
structure Separated (groups : List (List NumberedChunk)) : Prop where
  alike : ∀ group ∈ groups, ∀ entry ∈ group, ∀ other ∈ group,
    entry.2.path.components = other.2.path.components
  apart : groups.Pairwise GroupsApart

namespace Separated

variable {groups : List (List NumberedChunk)} {entry : NumberedChunk}

/-- A group with one more chunk like one that it has. -/
theorem extend {group : List NumberedChunk} {rest : List (List NumberedChunk)}
    (separated : Separated (group :: rest)) {like : NumberedChunk} (member : like ∈ group)
    (same : like.2.path.components = entry.2.path.components) :
    Separated ((group ++ [entry]) :: rest) := by
  have steps : ∀ chunk ∈ group ++ [entry],
      chunk.2.path.components = like.2.path.components := by
    intro chunk chunkMember
    rcases List.mem_append.mp chunkMember with old | new
    · exact separated.alike group List.mem_cons_self chunk old like member
    · rw [List.mem_singleton.mp new, same]
  obtain ⟨away, restApart⟩ := List.pairwise_cons.mp separated.apart
  refine ⟨List.forall_mem_cons.mpr ⟨?_, ?_⟩, List.pairwise_cons.mpr ⟨?_, restApart⟩⟩
  · intro first firstMember second secondMember
    rw [steps first firstMember, steps second secondMember]
  · exact fun other otherMember => separated.alike other (List.mem_cons_of_mem _ otherMember)
  · intro other otherMember first firstMember second secondMember
    rw [steps first firstMember]
    exact away other otherMember like member second secondMember

/-- A chunk in a group comes from a group before, or it is the one that was added. -/
theorem mem_of_addToGroups {group : List NumberedChunk}
    (groupMember : group ∈ addToGroups entry groups) {chunk : NumberedChunk}
    (member : chunk ∈ group) : (∃ old ∈ groups, chunk ∈ old) ∨ chunk = entry := by
  have flat := (addToGroups_perm entry groups).mem_iff.mp
    (List.mem_flatten.mpr ⟨group, groupMember, member⟩)
  rcases List.mem_append.mp flat with old | new
  · exact Or.inl (List.mem_flatten.mp old)
  · exact Or.inr (List.mem_singleton.mp new)

theorem add (separated : Separated groups) (entry : NumberedChunk) :
    Separated (addToGroups entry groups) := by
  induction groups with
  | nil =>
      refine ⟨?_, List.pairwise_singleton _ _⟩
      intro group groupMember first firstMember second secondMember
      rw [List.mem_singleton.mp groupMember] at firstMember secondMember
      rw [List.mem_singleton.mp firstMember, List.mem_singleton.mp secondMember]
  | cons group rest inductionHypothesis =>
      obtain ⟨away, restApart⟩ := List.pairwise_cons.mp separated.apart
      have restSeparated := inductionHypothesis
        ⟨fun other member => separated.alike other (List.mem_cons_of_mem _ member), restApart⟩
      rw [addToGroups]
      split
      next present =>
        obtain ⟨like, member, same⟩ := List.any_eq_true.mp present
        exact separated.extend member (beq_iff_eq.mp same)
      next absent =>
        have different : ∀ chunk ∈ group,
            chunk.2.path.components ≠ entry.2.path.components := by
          intro chunk member same
          exact absent (List.any_eq_true.mpr ⟨chunk, member, beq_iff_eq.mpr same⟩)
        refine ⟨List.forall_mem_cons.mpr ⟨?_, restSeparated.alike⟩,
          List.pairwise_cons.mpr ⟨?_, restSeparated.apart⟩⟩
        · exact separated.alike group List.mem_cons_self
        · intro other otherMember first firstMember second secondMember
          rcases mem_of_addToGroups otherMember secondMember with ⟨old, oldMember, found⟩ | rfl
          · exact away old oldMember first firstMember second found
          · exact different first firstMember

end Separated

theorem separated_pathGroups (chunks : List Chunk) : Separated (pathGroups chunks) := by
  have kept : ∀ (entries : List NumberedChunk) (groups : List (List NumberedChunk)),
      Separated groups →
        Separated (entries.foldl (fun groups entry => addToGroups entry groups) groups) := by
    intro entries
    induction entries with
    | nil => exact fun _ separated => separated
    | cons entry rest inductionHypothesis =>
        exact fun groups separated => inductionHypothesis _ (separated.add entry)
  rw [pathGroups_eq_foldl]
  exact kept (numbered chunks) []
    ⟨fun _ absurdity => absurd absurdity List.not_mem_nil, List.Pairwise.nil⟩

/-- Two chunks of a list are in one group exactly when their paths have the same components. -/
theorem together_iff_sameSteps {chunks : List Chunk} {first second : Nat} {chunk other : Chunk}
    (found : chunks[first]? = some chunk) (otherFound : chunks[second]? = some other) :
    Together chunks first second ↔ chunk.path.sameSteps other.path = true := by
  have separated := separated_pathGroups chunks
  have perm := flatten_pathGroups_perm chunks
  have only : ∀ {number : Nat} {wanted : Chunk}, chunks[number]? = some wanted →
      ∀ group ∈ pathGroups chunks, number ∈ group.map (·.1) → (number, wanted) ∈ group := by
    intro number wanted there group groupMember listed
    obtain ⟨⟨_, entry⟩, member, rfl⟩ := List.mem_map.mp listed
    have place := mem_numbered_iff.mp
      (perm.mem_iff.mp (List.mem_flatten.mpr ⟨group, groupMember, member⟩))
    rw [there] at place
    rwa [Option.some.inj place]
  rw [Path.sameSteps, beq_iff_eq]
  constructor
  · rintro ⟨group, groupMember, listed, otherListed⟩
    exact separated.alike group groupMember _ (only found group groupMember listed) _
      (only otherFound group groupMember otherListed)
  · intro same
    obtain ⟨group, groupMember, member⟩ :=
      List.mem_flatten.mp (perm.mem_iff.mpr (mem_numbered_iff.mpr found))
    obtain ⟨others, othersMember, otherMember⟩ :=
      List.mem_flatten.mp (perm.mem_iff.mpr (mem_numbered_iff.mpr otherFound))
    have one : group = others := by
      by_contra different
      exact separated.apart.forall groupMember othersMember different _ member _ otherMember same
    refine ⟨group, groupMember, List.mem_map_of_mem member, ?_⟩
    rw [one]
    exact List.mem_map_of_mem otherMember

/-! ## Located chunks -/

section Located

variable {tree : FileTree} {reports : List AppReport} {first second : Nat} {chunk other : Chunk}

theorem Chunk.exists_clean_of_mem_locate (member : chunk ∈ Chunk.locate tree reports) :
    ∃ path : Path, chunk.path = path.clean := by
  obtain ⟨report, -, record, source⟩ := Chunk.from_of_mem_locate member
  have resolved := source.resolved
  rw [Chunk.resolvePath?] at resolved
  split at resolved
  · exact ⟨_, (Option.some.inj resolved).symm⟩
  · cases resolved

/-- An absolute path of a located chunk tells where it leads, unless a link is on its way. -/
theorem Chunk.direct_of_mem_locate (member : chunk ∈ Chunk.locate tree reports)
    (absolute : chunk.path.isAbsolute = true) (uncrossed : ¬ tree.Crosses chunk.path) :
    tree.Direct chunk.path := by
  refine ⟨?_, uncrossed⟩
  obtain ⟨path, clean⟩ := Chunk.exists_clean_of_mem_locate member
  rw [clean, Path.isAbsolute_clean] at absolute
  rw [clean]
  exact Path.up_not_mem_clean absolute

/-- Located chunks are in one group exactly when they have one path, and then they denote one
file. Chunks that denote one file are in one group when their paths tell where they lead and
start at one place. -/
theorem together_iff_sameFile (located : (Chunk.locate tree reports)[first]? = some chunk)
    (otherLocated : (Chunk.locate tree reports)[second]? = some other) :
    (Together (Chunk.locate tree reports) first second ↔ chunk.path = other.path) ∧
      (Together (Chunk.locate tree reports) first second →
        tree.SameFile chunk.path other.path) ∧
      (chunk.path.isAbsolute = other.path.isAbsolute → tree.Direct chunk.path →
        tree.Direct other.path → tree.SameFile chunk.path other.path →
          Together (Chunk.locate tree reports) first second) := by
  have member := List.mem_of_getElem? located
  obtain ⟨path, clean⟩ := Chunk.exists_clean_of_mem_locate member
  obtain ⟨otherPath, otherClean⟩ :=
    Chunk.exists_clean_of_mem_locate (List.mem_of_getElem? otherLocated)
  have grouped : Together (Chunk.locate tree reports) first second ↔
      chunk.path = other.path := by
    rw [together_iff_sameSteps located otherLocated, clean, otherClean,
      Path.sameSteps_clean_iff]
  refine ⟨grouped, ?_, ?_⟩
  · intro together
    obtain ⟨report, -, record, source⟩ := Chunk.from_of_mem_locate member
    rw [← grouped.mp together]
    exact FileTree.sameFile_self source.isFile
  · intro start direct otherDirect same
    rw [clean] at start direct same
    rw [otherClean] at start otherDirect same
    apply grouped.mpr
    rw [clean, otherClean]
    exact same.clean_eq start direct otherDirect

end Located

/-! ## A chunk with a link to it -/

def linkedTree : FileTree where
  entries :=
    ⟨[(["dist"], .directory), (["dist", "a.js"], .file "a".toUTF8),
      (["dist", "b.js"], .link ⟨"a.js"⟩)], by
        have below : ["a.js"] < ["b.js"] := by decide
        simpa [Entries.Ordered] using below⟩
  workingDirectory := []

/-- Three libraries, of which the first and the last have the chunk, and the other the link. -/
def linkedReport : AppReport where
  app := "app"
  report :=
    ⟨⟨[("lib1", ⟨Table.empty, some (loneCharacteristics loneSite.name)⟩),
        ("lib2", ⟨Table.singleton "used" true, some (loneCharacteristics besideSite.name)⟩),
        ("lib3", ⟨Table.singleton "used" true, some (loneCharacteristics loneSite.name)⟩)],
      by unfold Entries.Ordered; decide⟩⟩
  sourcePath := loneDir.join ⟨"u"⟩
  outputDir := loneDir

def chunkOf (library : String) (site : Site) : Chunk := { loneChunk site with library := library }

theorem open_linkedTree : linkedTree.Open [] ["dist"] := ⟨by decide, rfl, trivial⟩

theorem lookup_loneSite_linkedTree :
    linkedTree.lookup true loneSite.path = .ok (loneSite.location, .file "a".toUTF8) :=
  FileTree.lookup_file loneSite.directoryNames loneSite.isName open_linkedTree (by decide) rfl

theorem lookup_besideSite_linkedTree :
    linkedTree.lookup true besideSite.path = .ok (loneSite.location, .file "a".toUTF8) :=
  FileTree.lookup_link besideSite.directoryNames besideSite.isName loneSite.isName open_linkedTree
    (by decide) (by decide) rfl rfl

theorem not_crosses_linkedTree : ¬ linkedTree.Crosses loneSite.path := by
  refine FileTree.not_crosses_pathOf (fun _ => Site.isName_of_mem_location)
    loneSite.location_ne_nil ?_
  intro front stem target link
  cases front with
  | nil => cases link
  | cons name rest =>
      have member := Table.mem_entries_iff.mpr link
      obtain ⟨⟨rfl, rfl⟩, -⟩ : (name = "dist" ∧ rest = ["b.js"]) ∧ target = ⟨"a.js"⟩ := by
        simpa [linkedTree] using member
      exact absurd stem (by decide)

theorem locate_linkedReport :
    Chunk.locate linkedTree [linkedReport] =
      [chunkOf "lib1" loneSite, chunkOf "lib2" besideSite, chunkOf "lib3" loneSite] := by
  have isDirectory : linkedTree.isDirectory linkedReport.outputDir = true := by
    have accepted : FileTree.refusal? loneSite.directory loneSite.name = none := by decide
    have found := FileTree.lookup_directory loneSite.directoryNames open_linkedTree accepted
    rw [FileTree.isDirectory, linkedReport, loneDir, found]
  have chunkIsFile : linkedTree.isFile loneSite.path = true := by
    rw [FileTree.isFile, lookup_loneSite_linkedTree]
  have linkIsFile : linkedTree.isFile besideSite.path = true := by
    rw [FileTree.isFile, lookup_besideSite_linkedTree]
  have absolute : linkedReport.outputDir.isAbsolute = true := Path.isAbsolute_pathOf _
  have target : Chunk.isTarget loneSite.name = true := by decide
  have linkTarget : Chunk.isTarget besideSite.name = true := by decide
  have place : linkedReport.outputDir.location = loneSite.directory :=
    Path.location_pathOf loneSite.directoryNames
  have linkPlace : linkedReport.outputDir.location = besideSite.directory := place
  rw [Chunk.locate, List.flatMap_singleton, if_pos isDirectory]
  show Chunk.locateLibrary linkedTree linkedReport _ ++
    (Chunk.locateLibrary linkedTree linkedReport _ ++
      (Chunk.locateLibrary linkedTree linkedReport _ ++ [])) = _
  rw [locateLibrary_lone target absolute place chunkIsFile,
    locateLibrary_lone linkTarget absolute linkPlace linkIsFile,
    locateLibrary_lone target absolute place chunkIsFile]
  rfl

/-- The chunk of two libraries is in one group, and the link to it is in another one although it
denotes the same file. -/
theorem together_iff_sameFile_linkedTree :
    ∃ chunk link other, Chunk.locate linkedTree [linkedReport] = [chunk, link, other] ∧
      linkedTree.Direct chunk.path ∧ linkedTree.Direct other.path ∧
      Together (Chunk.locate linkedTree [linkedReport]) 0 2 ∧
      linkedTree.SameFile chunk.path link.path ∧
      ¬ Together (Chunk.locate linkedTree [linkedReport]) 0 1 := by
  have located := locate_linkedReport
  have chunkFound : (Chunk.locate linkedTree [linkedReport])[0]? =
      some (chunkOf "lib1" loneSite) := by rw [located]; rfl
  have linkFound : (Chunk.locate linkedTree [linkedReport])[1]? =
      some (chunkOf "lib2" besideSite) := by rw [located]; rfl
  have otherFound : (Chunk.locate linkedTree [linkedReport])[2]? =
      some (chunkOf "lib3" loneSite) := by rw [located]; rfl
  have direct : linkedTree.Direct loneSite.path :=
    Chunk.direct_of_mem_locate (List.mem_of_getElem? chunkFound) (Path.isAbsolute_pathOf _)
      not_crosses_linkedTree
  refine ⟨_, _, _, located, direct, direct, ?_, ?_, ?_⟩
  · exact (together_iff_sameFile chunkFound otherFound).2.2 rfl direct direct
      ⟨_, _, lookup_loneSite_linkedTree, lookup_loneSite_linkedTree⟩
  · exact ⟨_, _, lookup_loneSite_linkedTree, lookup_besideSite_linkedTree⟩
  · intro together
    have paths : loneSite.path = besideSite.path :=
      (together_iff_sameFile chunkFound linkFound).1.mp together
    have names := congrArg Site.name (Site.path_injective paths)
    exact absurd names (by decide)

end ChunkPrune
