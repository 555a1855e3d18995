import ChunkPrune.Proofs.Restore.Linked

/-!
# What is sought in a tree without links

From an output directory, whether it is spelled from the top or from the working directory, a
walk finds the backups of the sites below it, if their paths are accepted by the system. So the
pairs that are found are told by the sites, and by no other entries of the tree. The system gives
the entries of a directory in no fixed order: another walk may find the pairs in another order, and
may be kept from going on by another directory.
-/

namespace ChunkPrune

/-- The backup and the chunk of a site as a walk from a directory spells them. There are none when
the directory is not there, when the site does not lie below it, and when the path of the backup
is not accepted. -/
def Site.pairOn? (tree : FileTree) (directory : Path) (site : Site) : Option BackupPair :=
  match tree.lookup true directory with
  | .ok (top, .directory) =>
    match top.isPrefixOf? site.directory with
    | some names =>
      if (site.pairAlong directory names).backup.refusal? site.backupName = none then
        some (site.pairAlong directory names)
      else none
    | none => none
  | _ => none

/-- A walk from a directory leads along names to a site. -/
structure Site.Along (tree : FileTree) (directory : Path) (names : Location) (site : Site) :
    Prop where
  opens : ∃ top, tree.Opens directory top ∧ site.directory = top ++ names
  accepted : (site.pairAlong directory names).backup.refusal? site.backupName = none

section Along

variable {tree after : FileTree} {directory : Path} {names : Location} {site : Site}
  {pair : BackupPair}

/-- The pair of a site is the one that is spelled along the way to it. -/
theorem Site.pairOn?_eq_some_iff (linkFree : tree.LinkFree) :
    site.pairOn? tree directory = some pair ↔
      ∃ names, site.Along tree directory names ∧ pair = site.pairAlong directory names := by
  constructor
  · intro taken
    rw [pairOn?] at taken
    split at taken
    next top found =>
      split at taken
      next names within =>
        split at taken
        next accepted =>
          cases taken
          have shape := FileTree.isPrefixOf?_eq_some_iff.mp within
          exact ⟨names, ⟨⟨top, FileTree.opens_of_lookup linkFree found, shape⟩, accepted⟩, rfl⟩
        · cases taken
      · cases taken
    · cases taken
  · rintro ⟨names, ⟨⟨top, opens, within⟩, accepted⟩, rfl⟩
    rw [pairOn?, opens.lookup true]
    simp only [FileTree.isPrefixOf?_eq_some_iff.mpr within]
    exact if_pos accepted

theorem Site.isDirectory_of_pairOn? (taken : site.pairOn? tree directory = some pair) :
    tree.isDirectory directory = true := by
  rw [pairOn?] at taken
  split at taken
  next top found => rw [FileTree.isDirectory, found]
  · cases taken

theorem Site.Along.mono (along : site.Along tree directory names)
    (workingDirectory : after.workingDirectory = tree.workingDirectory)
    (kept : ∀ location, tree.entry? location = some .directory →
      after.entry? location = some .directory) : site.Along after directory names := by
  obtain ⟨top, opens, within⟩ := along.opens
  exact ⟨⟨top, opens.mono workingDirectory kept, within⟩, along.accepted⟩

/-- In a directory that is there, both paths of the pair reach the files of the site. -/
theorem Site.Along.reaches (along : site.Along tree directory names) (onDisk : tree.OnDisk)
    (linkFree : tree.LinkFree) (isDirectory : tree.entry? site.directory = some .directory) :
    tree.Reaches (site.pairAlong directory names).backup site.backup ∧
      tree.Reaches (site.pairAlong directory names).chunk site.location := by
  obtain ⟨top, opens, within⟩ := along.opens
  have opened : tree.Open top names := by
    have whole := onDisk.opened isDirectory
    rw [within] at whole
    exact whole.right
  have proper : ∀ {last : String}, Path.IsName last → ∀ name ∈ names ++ [last],
      Path.IsName name := by
    intro last isName name member
    rcases List.mem_append.mp member with member | member
    · exact site.directoryNames name (within ▸ List.mem_append_right _ member)
    · exact List.mem_singleton.mp member ▸ isName
  have chunkAccepted := Path.refusal?_of_append (site.text_pairAlong directory names)
    along.accepted
  rw [Site.backup, Site.location, within]
  exact ⟨opens.reaches linkFree (proper site.isName_backupName) opened along.accepted,
    opens.reaches linkFree (proper site.isName) opened chunkAccepted⟩

end Along

/-! ## The pair of a site -/

section Pair

variable {tree after : FileTree} {directory : Path} {site : Site} {pair : BackupPair}

theorem Site.reaches_of_pairOn? (onDisk : tree.OnDisk) (linkFree : tree.LinkFree)
    (isDirectory : tree.entry? site.directory = some .directory)
    (taken : site.pairOn? tree directory = some pair) :
    tree.Reaches pair.backup site.backup ∧ tree.Reaches pair.chunk site.location := by
  obtain ⟨names, along, rfl⟩ := (Site.pairOn?_eq_some_iff linkFree).mp taken
  exact along.reaches onDisk linkFree isDirectory

/-- The pair of a site depends on the directories of a tree only. -/
theorem FileTree.Returns.pairOn?_eq {sites : Site → Prop} (returns : tree.Returns sites after)
    (linkFree : tree.LinkFree) (afterLinkFree : after.LinkFree) (directory : Path) (site : Site) :
    site.pairOn? after directory = site.pairOn? tree directory := by
  apply Option.ext
  intro pair
  rw [Site.pairOn?_eq_some_iff linkFree, Site.pairOn?_eq_some_iff afterLinkFree]
  refine exists_congr fun names => and_congr_left' ⟨fun along => ?_, fun along => ?_⟩
  · exact along.mono returns.workingDirectory.symm
      fun location => (returns.directory_iff location).mp
  · exact along.mono returns.workingDirectory
      fun location => (returns.directory_iff location).mpr

theorem FileTree.Returns.linkFree {sites : Site → Prop} (returns : tree.Returns sites after)
    (linkFree : tree.LinkFree) : after.LinkFree := by
  intro location target link
  rcases returns.entries location with same | ⟨site, entry, -, rfl | rfl, returned⟩
  · exact linkFree _ _ (same.symm.trans link)
  · rw [returned.chunk] at link
    exact linkFree _ _ (returned.backupBefore.trans link)
  · rw [returned.backup] at link
    cases link

end Pair

/-! ## The pairs that are found -/

section Find

variable {tree : FileTree} {directory : Path} {pairs : List BackupPair} {pair : BackupPair}
  {names : Location} {entry : Entry} {top : Location}

/-- What a walk makes of the path of an entry is the pair of a site, of which the backup is that
entry. -/
theorem exists_site_of_backupAt? (onDisk : tree.OnDisk) (linkFree : tree.LinkFree)
    (opens : tree.Opens directory top) (more : names ≠ [])
    (stands : tree.entry? (top ++ names) = some entry)
    (taken : tree.backupAt? (directory.spelled names) = some pair) :
    ∃ site : Site, ∃ content, top ++ names = site.backup ∧
      site.pairOn? tree directory = some pair ∧
      tree.entry? site.backup = some (.file content) := by
  obtain ⟨site, initial, within, rfl, rfl⟩ :=
    Site.exists_pairAlong onDisk opens.nonempty more stands taken
  have place : top ++ (initial ++ [site.backupName]) = site.backup := by
    rw [Site.backup, within, List.append_assoc]
  rw [place] at stands
  obtain ⟨isDirectory, isEntry⟩ := onDisk.parent stands
  obtain ⟨-, isFile, -⟩ := FileTree.backupAt?_eq_some taken
  obtain ⟨location, content, found⟩ := FileTree.isFile_iff.mp isFile
  have along : site.Along tree directory initial :=
    ⟨⟨top, opens, within⟩,
      FileTree.refusal?_of_resolve (FileTree.lookup_eq_ok_iff.mp found) isEntry.fits⟩
  obtain ⟨reaches, -⟩ := along.reaches onDisk linkFree isDirectory
  obtain ⟨-, backup⟩ := FileTree.stands_of_lookup (reaches true) found
  exact ⟨site, content, place, (Site.pairOn?_eq_some_iff linkFree).mpr ⟨initial, along, rfl⟩,
    backup⟩

/-- Entries with one pair are one entry. -/
theorem backupAt?_unique (onDisk : tree.OnDisk) (linkFree : tree.LinkFree)
    (opens : tree.Opens directory top) {others : Location} {other : Entry}
    (listed : (names, entry) ∈ tree.below top) (otherListed : (others, other) ∈ tree.below top)
    (taken : tree.backupAt? (directory.spelled names) = some pair)
    (otherTaken : tree.backupAt? (directory.spelled others) = some pair) : names = others := by
  have reached : ∀ {names : Location} {entry : Entry}, (names, entry) ∈ tree.below top →
      tree.backupAt? (directory.spelled names) = some pair →
      tree.Reaches pair.backup (top ++ names) := by
    intro names entry listed taken
    obtain ⟨more, stands⟩ := FileTree.mem_below_iff.mp listed
    rw [← tree.entry?_of_ne_nil (by simp [more])] at stands
    obtain ⟨site, content, place, own, backup⟩ :=
      exists_site_of_backupAt? onDisk linkFree opens more stands taken
    rw [place]
    exact (site.reaches_of_pairOn? onDisk linkFree (onDisk.parent backup).1 own).1
  exact List.append_cancel_left ((reached listed taken).unique (reached otherListed otherTaken))

/-- A walk from an output directory finds the pairs of the sites of which the backups are files,
each of them once. -/
theorem mem_findBackups_iff_site (onDisk : tree.OnDisk) (linkFree : tree.LinkFree)
    (found : findBackups tree directory = .ok pairs) :
    pairs.Nodup ∧ ∀ pair, pair ∈ pairs ↔ ∃ site : Site, ∃ content,
      site.pairOn? tree directory = some pair ∧
        tree.entry? site.backup = some (.file content) := by
  by_cases isDirectory : tree.isDirectory directory = true
  · obtain ⟨top, looked⟩ := FileTree.isDirectory_iff.mp isDirectory
    have opens := FileTree.opens_of_lookup linkFree looked
    refine ⟨?_, fun pair => ⟨?_, ?_⟩⟩
    · rw [eq_filterMap_of_findBackups found, FileTree.pathsBelow, FileTree.entriesBelow, looked,
        List.map_map, List.Nodup, List.pairwise_filterMap, List.pairwise_map]
      have distinct := List.pairwise_map.mp (tree.nodup_below top)
      apply distinct.imp_of_mem
      intro first second listed otherListed different pair taken _ otherTaken same
      subst same
      exact different (backupAt?_unique onDisk linkFree opens listed otherListed taken otherTaken)
    · intro member
      rw [eq_filterMap_of_findBackups found] at member
      obtain ⟨path, listed, taken⟩ := List.mem_filterMap.mp member
      obtain ⟨⟨_, entry⟩, entryListed, rfl⟩ := List.mem_map.mp listed
      obtain ⟨names, more, rfl, stands⟩ := opens.mem_entriesBelow_iff.mp entryListed
      obtain ⟨site, content, -, own, backup⟩ :=
        exists_site_of_backupAt? onDisk linkFree opens more stands taken
      exact ⟨site, content, own, backup⟩
    · rintro ⟨site, content, own, backup⟩
      have reaches := site.reaches_of_pairOn? onDisk linkFree (onDisk.parent backup).1 own
      obtain ⟨names, along, rfl⟩ := (Site.pairOn?_eq_some_iff linkFree).mp own
      refine (mem_findBackups_iff found).mpr
        ⟨?_, reaches.1.isFile backup, site.ofBackup?_pairAlong directory names⟩
      obtain ⟨other, otherOpens, within⟩ := along.opens
      obtain rfl : other = top := by
        have both := (otherOpens.lookup true).symm.trans looked
        cases both
        rfl
      refine List.mem_map.mpr ⟨(_, .file content), opens.mem_entriesBelow_iff.mpr ⟨_, ?_, rfl, ?_⟩,
        rfl⟩
      · simp
      · rw [← List.append_assoc, ← within]
        exact backup
  · rw [findBackups_of_not_directory isDirectory] at found
    cases found
    refine ⟨List.nodup_nil, fun pair => iff_of_false List.not_mem_nil ?_⟩
    rintro ⟨site, content, taken, -⟩
    exact isDirectory (Site.isDirectory_of_pairOn? taken)

/-- A directory that a walk can enter, it can enter as long as the directories are there. -/
theorem FileTree.Returns.barrier?_eq_none {sites : Site → Prop} {after : FileTree}
    (returns : tree.Returns sites after) (onDisk : tree.OnDisk) (linkFree : tree.LinkFree)
    (free : ∀ listed ∈ tree.entriesBelow directory, tree.barrier? listed = none) :
    ∀ listed ∈ after.entriesBelow directory, after.barrier? listed = none := by
  rintro ⟨path, entry⟩ listed
  cases entry with
  | file content => rfl
  | link target => rfl
  | directory =>
      have isDirectory : after.isDirectory directory = true := by
        by_contra absent
        rw [entriesBelow_of_not_directory absent] at listed
        cases listed
      obtain ⟨top, looked⟩ := FileTree.isDirectory_iff.mp isDirectory
      have afterOpens := FileTree.opens_of_lookup (returns.linkFree linkFree) looked
      have opens : tree.Opens directory top := afterOpens.mono returns.workingDirectory.symm
        fun location => (returns.directory_iff location).mp
      obtain ⟨names, more, rfl, stands⟩ := afterOpens.mem_entriesBelow_iff.mp listed
      rw [returns.directory_iff] at stands
      have entered := free _ (opens.mem_entriesBelow_iff.mpr ⟨names, more, rfl, stands⟩)
      rw [FileTree.barrier?] at entered ⊢
      cases found : tree.lookup true (directory.spelled names) with
      | error cause => simp [found] at entered
      | ok place =>
          have way := opens.below onDisk linkFree more stands found
          rw [(way.mono returns.workingDirectory
            fun location => (returns.directory_iff location).mpr).lookup true]

end Find

/-! ## Walks in any order -/

/-- What a walk for the backups below a directory may bring, in whatever order it comes by the
entries: one of the failures that keep it from going on, or all backups in some order. -/
inductive SeeksBackups (tree : FileTree) (directory : Path) :
    Except Failure (List BackupPair) → Prop
  | blocked {listed : Path × Entry} {failure : Failure} :
      listed ∈ tree.entriesBelow directory → tree.barrier? listed = some failure →
      SeeksBackups tree directory (.error failure)
  | ended {found pairs : List BackupPair} :
      findBackups tree directory = .ok found → pairs.Perm found →
      SeeksBackups tree directory (.ok pairs)

section Seek

variable {tree : FileTree} {directory : Path} {pairs : List BackupPair}

theorem seeksBackups_findBackups (tree : FileTree) (directory : Path) :
    SeeksBackups tree directory (findBackups tree directory) := by
  cases found : findBackups tree directory with
  | ok pairs => exact .ended found (.refl _)
  | error failure =>
      rw [findBackups] at found
      split at found
      next barrier =>
        cases found
        obtain ⟨listed, member, own⟩ := List.exists_of_findSome?_eq_some barrier
        exact .blocked member own
      · cases found

/-- A walk that has ended was kept from going on by no directory. -/
theorem SeeksBackups.free (seeks : SeeksBackups tree directory (.ok pairs)) :
    ∀ listed ∈ tree.entriesBelow directory, tree.barrier? listed = none := by
  cases seeks with
  | ended found same =>
      rw [findBackups] at found
      split at found
      · cases found
      next free => exact List.findSome?_eq_none_iff.mp free

/-- In whatever order, a walk finds the pairs of the sites of which the backups are files, each of
them once. -/
theorem SeeksBackups.mem_iff_site (seeks : SeeksBackups tree directory (.ok pairs))
    (onDisk : tree.OnDisk) (linkFree : tree.LinkFree) :
    pairs.Nodup ∧ ∀ pair, pair ∈ pairs ↔ ∃ site : Site, ∃ content,
      site.pairOn? tree directory = some pair ∧
        tree.entry? site.backup = some (.file content) := by
  cases seeks with
  | ended found same =>
      obtain ⟨distinct, mem_iff⟩ := mem_findBackups_iff_site onDisk linkFree found
      exact ⟨same.nodup_iff.mpr distinct, fun pair => same.mem_iff.trans (mem_iff pair)⟩

end Seek

end ChunkPrune
