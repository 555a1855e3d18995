import ChunkPrune.Proofs.FileTree.Opens
import ChunkPrune.Proofs.Restore.Returns

/-!
# What restoring does in a tree with links

A walk enters no links. So restoring finds the backups below the output directories that it
enters and moves each of them back, and leaves every other backup where it is.
-/

namespace ChunkPrune

/-- Restoring some applications walks to the backup of a site. -/
def Site.Walked (apps : List Application) (tree : FileTree) (site : Site) : Prop :=
  ∃ app ∈ apps, tree.Enters app.outputDir ∧ site.Below app.outputDir

/-- A walk from a directory leads to the directory of a site, and the name of the backup is not
too long. -/
structure Site.Reached (tree : FileTree) (directory : Path) (site : Site) : Prop where
  below : site.Below directory
  isDirectory : tree.entry? site.directory = some .directory
  fits : site.backupName.utf8ByteSize ≤ FileTree.nameLimit

/-! ## Trees with the same directories -/

section Directories

variable {before after : FileTree}
  (directory_iff : ∀ location, after.entry? location = some .directory ↔
    before.entry? location = some .directory)

include directory_iff

theorem FileTree.enters_iff (directory : Path) : after.Enters directory ↔ before.Enters directory :=
  ⟨fun enters => enters.mono fun location => (directory_iff location).mp,
    fun enters => enters.mono fun location => (directory_iff location).mpr⟩

theorem Site.walked_iff (apps : List Application) (site : Site) :
    site.Walked apps after ↔ site.Walked apps before := by
  simp only [Walked, FileTree.enters_iff directory_iff]

end Directories

/-! ## Sites that a walk reaches -/

section Reached

variable {tree after : FileTree} {directory : Path} {site : Site}

theorem Site.Below.reached (below : site.Below directory) (onDisk : tree.OnDisk)
    (stands : tree.entry? site.backup ≠ none) : site.Reached tree directory := by
  obtain ⟨entry, found⟩ := Option.ne_none_iff_exists'.mp stands
  obtain ⟨isDirectory, proper⟩ := onDisk.parent found
  exact ⟨below, isDirectory, proper.fits⟩

theorem Site.Reached.mono (reached : site.Reached tree directory)
    (kept : ∀ location, tree.entry? location = some .directory →
      after.entry? location = some .directory) : site.Reached after directory :=
  ⟨reached.below, kept _ reached.isDirectory, reached.fits⟩

/-- The backup is looked up in the directory of the site, where a link may be followed. -/
theorem Site.Reached.resolve (reached : site.Reached tree directory) (onDisk : tree.OnDisk)
    (enters : tree.Enters directory) {follow : Bool}
    (plain : follow = false ∨ ∀ target, tree.entry? site.backup ≠ some (.link target)) :
    tree.resolve follow (site.pairFrom directory).backup = .ok (tree.placeAt site.backup) :=
  (reached.below.resolve enters (onDisk.opened reached.isDirectory) follow).1.trans
    (FileTree.walk_name plain site.isName_backupName reached.fits)

theorem Site.Reached.resolve_chunk (reached : site.Reached tree directory)
    (onDisk : tree.OnDisk) (enters : tree.Enters directory) :
    tree.resolve false (site.pairFrom directory).chunk = .ok (tree.placeAt site.location) :=
  (reached.below.resolve enters (onDisk.opened reached.isDirectory) false).2.trans
    (FileTree.walk_name (Or.inl rfl) site.isName (Site.name_fits reached.fits))

/-- Both paths of a pair lead to the files of a site, where a link stands for itself. -/
structure Site.Resolves (tree : FileTree) (site : Site) (pair : BackupPair) : Prop where
  backup : tree.resolve false pair.backup = .ok (tree.placeAt site.backup)
  chunk : tree.resolve false pair.chunk = .ok (tree.placeAt site.location)

theorem Site.Reached.resolves (reached : site.Reached tree directory) (onDisk : tree.OnDisk)
    (enters : tree.Enters directory) : site.Resolves tree (site.pairFrom directory) :=
  ⟨reached.resolve onDisk enters (Or.inl rfl), reached.resolve_chunk onDisk enters⟩

/-- A pair belongs to one site. -/
theorem Site.Resolves.unique {other : Site} {pair : BackupPair}
    (resolves : site.Resolves tree pair) (otherResolves : other.Resolves tree pair) :
    site = other :=
  Site.ext_backup (tree.placeAt_injective
    (Except.ok.inj (resolves.backup.symm.trans otherResolves.backup)))

theorem FileTree.takesEntry_placeAt {location other : Location}
    (takes : TakesEntry other (tree.placeAt location)) :
    other = location ∧ tree.entry? location ≠ some .directory := by
  rw [placeAt] at takes
  split at takes
  next entry found =>
    cases takes with
    | occupied noDirectory =>
        exact ⟨rfl, fun isDirectory => noDirectory
          (Option.some.inj (found.symm.trans isDirectory))⟩
  next vacant =>
    cases takes
    exact ⟨rfl, by simp [vacant]⟩

theorem FileTree.stands_of_lookup {follow : Bool} {path : Path} {location other : Location}
    {entry : Entry} (resolved : tree.resolve follow path = .ok (tree.placeAt location))
    (found : tree.lookup follow path = .ok (other, entry)) :
    other = location ∧ tree.entry? location = some entry :=
  placeAt_eq_occupied (Except.ok.inj (resolved.symm.trans (lookup_eq_ok_iff.mp found)))

/-- A backup that was renamed has moved over its chunk, as a file or as a link. -/
theorem Site.Resolves.rename {pair : BackupPair} (resolves : site.Resolves tree pair)
    (renamed : tree.rename pair.backup pair.chunk = .ok after) :
    ∃ entry, entry ≠ .directory ∧ tree.entry? site.backup = some entry ∧
      tree.entry? site.location ≠ some .directory ∧ after = tree.moveOver site entry := by
  rw [FileTree.rename] at renamed
  split at renamed
  · cases renamed
  next location entry noDirectory found =>
    obtain ⟨rfl, stands⟩ := FileTree.stands_of_lookup resolves.backup found
    have moved : (tree.replaceAt pair.chunk entry).map (·.remove site.backup) = .ok after := by
      split at renamed
      next other _ there =>
        obtain ⟨rfl, -⟩ := FileTree.stands_of_lookup resolves.chunk there
        rwa [if_neg (Site.location_ne_backup site site)] at renamed
      · exact renamed
    obtain ⟨next, replaced, rfl⟩ := exists_of_map_eq_ok moved
    obtain ⟨place, other, resolved, takes, rfl⟩ := FileTree.exists_place_of_replaceAt replaced
    rw [← Except.ok.inj (resolves.chunk.symm.trans resolved)] at takes
    obtain ⟨rfl, chunkFree⟩ := FileTree.takesEntry_placeAt takes
    exact ⟨entry, noDirectory, stands, chunkFree, rfl⟩
  · cases renamed

end Reached

/-! ## The backups that a walk finds -/

section Find

variable {tree : FileTree} {directory : Path} {pairs : List BackupPair} {site : Site}

/-- A name with the ending of backups is that of the backup of a site. -/
theorem Site.exists_backupName {names : Location} {name : String}
    (proper : ∀ name ∈ names, Path.IsName name) (noSlash : '/' ∉ name.toList)
    (ends : Text.endsWith name (Chunk.extension ++ Chunk.backupSuffix) = true) :
    ∃ site : Site, site.directory = names ∧ site.backupName = name := by
  obtain ⟨front, whole⟩ := Text.endsWith_iff.mp ends
  rw [String.toList_append, ← List.append_assoc] at whole
  let chunk := String.ofList (front ++ Chunk.extension.toList)
  have chunkEnds : Text.endsWith chunk Chunk.extension = true :=
    Text.endsWith_iff.mpr ⟨front, String.toList_ofList⟩
  have chunkNoSlash : '/' ∉ chunk.toList := by
    rw [whole] at noSlash
    rw [String.toList_ofList]
    exact fun member => noSlash (List.mem_append_left _ member)
  refine ⟨⟨names, chunk, proper, Path.isName_of_endsWith chunkEnds (by decide) chunkNoSlash,
    chunkEnds⟩, rfl, ?_⟩
  rw [backupName, ← String.toList_inj, String.toList_append, String.toList_ofList, whole]

/-- What a walk along names makes of the path of an entry is the pair of a site. -/
theorem Site.exists_pairAlong (onDisk : tree.OnDisk) (nonempty : directory.text ≠ "")
    {top names : Location} {entry : Entry} {pair : BackupPair} (more : names ≠ [])
    (stands : tree.entry? (top ++ names) = some entry)
    (taken : tree.backupAt? (directory.spelled names) = some pair) :
    ∃ (site : Site) (initial : Location), site.directory = top ++ initial ∧
      names = initial ++ [site.backupName] ∧ pair = site.pairAlong directory initial := by
  obtain ⟨path, -, belongs⟩ := FileTree.backupAt?_eq_some taken
  obtain ⟨initial, last, rfl⟩ : ∃ initial last, names = initial ++ [last] :=
    ⟨_, _, (List.dropLast_concat_getLast more).symm⟩
  rw [← List.append_assoc] at stands
  have proper : ∀ name ∈ top ++ initial ++ [last], Path.IsName name :=
    fun name inside => (onDisk.names _ _ stands name inside).isName
  have lastProper := proper last (by simp)
  have before := Path.start_spelled nonempty fun name member =>
    proper name (List.mem_append_left [last] (List.mem_append_right top member))
  have lastEnds := Path.endsWith_of_spelled before.1 lastProper (by decide)
    (endsWith_of_ofBackup? belongs)
  obtain ⟨site, within, rfl⟩ := Site.exists_backupName
    (fun name inside => proper name (List.mem_append_left _ inside)) lastProper.noSlash lastEnds
  have own : some pair.chunk = some (site.pairAlong directory initial).chunk :=
    belongs.symm.trans (site.ofBackup?_pairAlong directory initial)
  refine ⟨site, initial, within, rfl, ?_⟩
  cases pair
  cases path
  cases own
  rfl

/-- What a walk finds are backups of sites below the directory. -/
theorem exists_site_of_findBackups (onDisk : tree.OnDisk) (enters : tree.Enters directory)
    (found : findBackups tree directory = .ok pairs) {pair : BackupPair} (member : pair ∈ pairs) :
    ∃ site : Site, site.Reached tree directory ∧ pair = site.pairFrom directory := by
  rw [eq_filterMap_of_findBackups found] at member
  obtain ⟨path, listed, taken⟩ := List.mem_filterMap.mp member
  obtain ⟨⟨_, entry⟩, entryListed, rfl⟩ := List.mem_map.mp listed
  obtain ⟨names, more, rfl, stands⟩ := (FileTree.mem_entriesBelow_iff enters).mp entryListed
  rw [← tree.entry?_of_ne_nil (by simp [more])] at stands
  obtain ⟨site, initial, within, rfl, rfl⟩ :=
    Site.exists_pairAlong onDisk (Path.text_ne_empty enters.absolute) more stands taken
  obtain ⟨-, isFile, -⟩ := FileTree.backupAt?_eq_some taken
  obtain ⟨noNul, short⟩ := FileTree.text_of_isFile isFile
  obtain rfl := Site.namesFrom_of_append within
  have below : site.Below directory := ⟨within, noNul, short⟩
  refine ⟨site, below.reached onDisk ?_, rfl⟩
  rw [Site.backup, within, List.append_assoc, stands]
  simp

/-- A link that a walk finds leads to a file. -/
theorem Site.Reached.route (reached : site.Reached tree directory) (onDisk : tree.OnDisk)
    (enters : tree.Enters directory) (found : findBackups tree directory = .ok pairs)
    (member : site.pairFrom directory ∈ pairs) {target : Path}
    (link : tree.entry? site.backup = some (.link target)) :
    ∃ links location content, tree.Route true links (FileTree.start site.directory target)
      target.segments (.occupied location (.file content)) := by
  obtain ⟨-, isFile, -⟩ := (mem_findBackups_iff found).mp member
  obtain ⟨location, content, looked⟩ := FileTree.isFile_iff.mp isFile
  have opened := onDisk.opened reached.isDirectory
  have walked := (reached.below.resolve enters opened true).1.symm.trans
    (FileTree.lookup_eq_ok_iff.mp looked)
  obtain ⟨links, through⟩ := (FileTree.route_of_walk walked).of_link site.isName_backupName link
  exact ⟨links, location, content, through⟩

/-- A walk finds the backups of all sites below the directory, when they are files. -/
theorem Site.Below.mem_findBackups (below : site.Below directory) (onDisk : tree.OnDisk)
    (enters : tree.Enters directory) (found : findBackups tree directory = .ok pairs)
    {content : ByteArray} (backup : tree.entry? site.backup = some (.file content)) :
    site.pairFrom directory ∈ pairs := by
  have reached := below.reached onDisk (by simp [backup])
  have toBackup : tree.resolve true (site.pairFrom directory).backup = _ :=
    reached.resolve onDisk enters (Or.inr (by simp [backup]))
  refine (mem_findBackups_iff found).mpr ⟨?_, ?_, site.ofBackup?_pairFrom directory⟩
  · rw [tree.entry?_of_ne_nil site.backup_ne_nil, Site.backup, below.within,
      List.append_assoc] at backup
    refine List.mem_map.mpr ⟨(_, .file content), ?_, rfl⟩
    exact (FileTree.mem_entriesBelow_iff enters).mpr ⟨_, by simp, rfl, backup⟩
  · refine FileTree.isFile_iff.mpr ⟨site.backup, content, FileTree.lookup_eq_ok_iff.mpr ?_⟩
    rw [toBackup, FileTree.placeAt, backup]

end Find

/-! ## Restoring -/

section Restore

variable {tree after : FileTree} {directory : Path} {pairs : List BackupPair}

theorem restoreApps_cons_eq_ok {app : Application} {rest : List Application}
    {chunks : List Path} (restored : restoreApps tree (app :: rest) = (after, .ok chunks)) :
    ∃ pairs next moved others, findBackups tree app.outputDir = .ok pairs ∧
      restorePairs tree pairs = (next, .ok moved) ∧
      restoreApps next rest = (after, .ok others) ∧ chunks = moved ++ others := by
  rw [restoreApps] at restored
  split at restored
  · cases restored
  next pairs found =>
    split at restored
    · cases restored
    next next moved first =>
      obtain ⟨rfl, mapped⟩ := Prod.mk.inj restored
      obtain ⟨others, succeeded, rfl⟩ := exists_of_map_eq_ok mapped
      exact ⟨pairs, next, moved, others, found, first, Prod.ext rfl succeeded, rfl⟩

/-- Backups of a list return, up to the first that cannot be moved, and nothing else changes. When
there is none, all of them have returned, and the chunks are told in the order of the list. -/
theorem restorePairs_returns {before : FileTree} {sites : Site → Prop}
    {leads : Site → BackupPair → Prop} {result : Except Failure (List Path)}
    (resolves : ∀ now, before.Returns sites now → ∀ site pair, leads site pair →
      site.Resolves now pair)
    (returned : before.Returns sites tree)
    (each : ∀ pair ∈ pairs, ∃ site, sites site ∧ leads site pair)
    (restored : restorePairs tree pairs = (after, result)) :
    tree.Returns sites after ∧ ∀ chunks, result = .ok chunks →
      chunks = pairs.map (·.chunk) ∧ ∀ site pair, leads site pair → pair ∈ pairs →
        after.entry? site.backup = none := by
  induction pairs generalizing tree result with
  | nil =>
      cases restored
      refine ⟨.refl _ _, fun chunks same => ?_⟩
      cases same
      exact ⟨rfl, fun _ _ _ absurdity => absurd absurdity List.not_mem_nil⟩
  | cons pair rest inductionHypothesis =>
      obtain ⟨site, belongs, own⟩ := each pair List.mem_cons_self
      rw [restorePairs] at restored
      split at restored
      · cases restored
        exact ⟨.refl _ _, fun chunks same => by cases same⟩
      next next renamed =>
        obtain ⟨rfl, rfl⟩ := Prod.mk.inj restored
        have here := resolves tree returned
        obtain ⟨entry, noDirectory, backup, chunk, rfl⟩ := (here site pair own).rename renamed
        have step : tree.Returns sites (tree.moveOver site entry) :=
          (FileTree.Returns.refl sites tree).moveOver belongs noDirectory backup chunk
        obtain ⟨returns, complete⟩ := inductionHypothesis (returned.trans step)
          (fun other member => each other (List.mem_cons_of_mem _ member)) rfl
        refine ⟨step.trans returns, fun chunks succeeded => ?_⟩
        obtain ⟨others, restSucceeded, rfl⟩ := exists_of_map_eq_ok succeeded
        obtain ⟨rfl, gone⟩ := complete others restSucceeded
        refine ⟨rfl, fun other otherPair otherLeads member => ?_⟩
        rcases List.mem_cons.mp member with rfl | member
        · obtain rfl := (here other otherPair otherLeads).unique (here site otherPair own)
          exact returns.gone (tree.entry?_moveOver_backup other entry)
        · exact gone other otherPair otherLeads member

/-- Restoring one application: all backups below its output directory have returned, nothing
else has changed, and no path leads to a directory that has not led to one. -/
theorem restoreApp_returns {chunks : List Path} (onDisk : tree.OnDisk)
    (entered : tree.isDirectory directory = true → tree.Enters directory)
    (found : findBackups tree directory = .ok pairs)
    (restored : restorePairs tree pairs = (after, .ok chunks)) :
    tree.Returns (fun site => tree.Enters directory ∧ site.Below directory) after ∧
      (∀ (site : Site) content, tree.Enters directory → site.Below directory →
        tree.entry? site.backup = some (.file content) → after.entry? site.backup = none) ∧
      ∀ path, after.isDirectory path = true → tree.isDirectory path = true := by
  by_cases isDirectory : tree.isDirectory directory = true
  · have enters := entered isDirectory
    let sites (site : Site) : Prop :=
      site.Reached tree directory ∧ site.pairFrom directory ∈ pairs
    let leads (site : Site) (pair : BackupPair) : Prop :=
      site.Reached tree directory ∧ pair = site.pairFrom directory
    have resolves : ∀ now, tree.Returns sites now → ∀ site pair, leads site pair →
        site.Resolves now pair := by
      rintro now returned site pair ⟨reached, rfl⟩
      have kept := fun location => (returned.directory_iff location).mpr
      exact (reached.mono kept).resolves (returned.onDisk onDisk) (enters.mono kept)
    have each : ∀ pair ∈ pairs, ∃ site, sites site ∧ leads site pair := by
      intro pair member
      obtain ⟨site, reached, rfl⟩ := exists_site_of_findBackups onDisk enters found member
      exact ⟨site, ⟨reached, member⟩, reached, rfl⟩
    obtain ⟨returns, complete⟩ := restorePairs_returns resolves (.refl _ _) each restored
    obtain ⟨-, gone⟩ := complete chunks rfl
    refine ⟨returns.mono fun site both => ⟨enters, both.1.below⟩, ?_, ?_⟩
    · intro site content _ below backup
      exact gone site _ ⟨below.reached onDisk (by simp [backup]), rfl⟩
        (below.mem_findBackups onDisk enters found backup)
    · intro path afterIs
      exact returns.isDirectory (fun site both target link =>
        both.1.route onDisk enters found both.2 link) afterIs
  · have noEnters : ¬ tree.Enters directory := fun enters => isDirectory (by
      rw [FileTree.isDirectory, enters.lookup true])
    rw [findBackups_of_not_directory isDirectory] at found
    cases found
    cases restored
    exact ⟨.refl _ _, fun site content enters => absurd enters noEnters, fun _ same => same⟩

/-- Restoring applications, in a tree where links are no part of the ways to their output
directories: all backups that a walk leads to have returned, and nothing else has changed. -/
theorem restoreApps_returns {apps : List Application} {chunks : List Path}
    (onDisk : tree.OnDisk)
    (entered : ∀ app ∈ apps, tree.isDirectory app.outputDir = true → tree.Enters app.outputDir)
    (restored : restoreApps tree apps = (after, .ok chunks)) :
    tree.Returns (Site.Walked apps tree) after ∧ ∀ (site : Site) content,
      site.Walked apps tree → tree.entry? site.backup = some (.file content) →
        after.entry? site.backup = none := by
  induction apps generalizing tree chunks with
  | nil =>
      cases restored
      refine ⟨.refl _ _, ?_⟩
      rintro site content ⟨app, absurdity, -⟩
      exact absurd absurdity List.not_mem_nil
  | cons app rest inductionHypothesis =>
      obtain ⟨pairs, next, moved, others, found, first, further, -⟩ :=
        restoreApps_cons_eq_ok restored
      obtain ⟨step, gone, directories⟩ :=
        restoreApp_returns onDisk (entered app List.mem_cons_self) found first
      have enters_iff := FileTree.enters_iff step.directory_iff
      have walked_iff := Site.walked_iff step.directory_iff rest
      obtain ⟨returns, restGone⟩ := inductionHypothesis (step.onDisk onDisk)
        (fun other member isDirectory => (enters_iff _).mpr
          (entered other (List.mem_cons_of_mem _ member) (directories _ isDirectory))) further
      refine ⟨FileTree.Returns.trans (step.mono ?_) (returns.mono ?_), ?_⟩
      · rintro site ⟨enters, below⟩
        exact ⟨app, List.mem_cons_self, enters, below⟩
      · intro site walked
        obtain ⟨other, member, enters, below⟩ := (walked_iff site).mp walked
        exact ⟨other, List.mem_cons_of_mem _ member, enters, below⟩
      · rintro site content ⟨other, member, enters, below⟩ backup
        rcases List.mem_cons.mp member with rfl | member
        · exact returns.gone (gone site content enters below backup)
        · rcases step.backup_cases site with same | away
          · exact restGone site content
              ((walked_iff site).mpr ⟨other, member, enters, below⟩) (same.trans backup)
          · exact returns.gone away

end Restore

end ChunkPrune
