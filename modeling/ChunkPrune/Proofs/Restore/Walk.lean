import ChunkPrune.Proofs.Path.Text
import ChunkPrune.Proofs.Restore.Saved

/-!
# What a walk for backups finds

In a tree that differs from the start at saved chunks only, the walk from an output directory
finds the backups of saved chunks below it, each of them once, and nothing else. It spells
their paths from the output directory as that was given.
-/

namespace ChunkPrune

namespace Site

variable {directory : Path} {site : Site}

/-- The names from a directory above a site to the directory of the site. -/
def namesFrom (directory : Path) (site : Site) : Location :=
  site.directory.drop directory.location.length

/-- The backup and the chunk of a site, as spelled on a walk along names from a directory. -/
def pairAlong (directory : Path) (names : Location) (site : Site) : BackupPair :=
  ⟨directory.spelled (names ++ [site.backupName]), directory.spelled (names ++ [site.name])⟩

/-- The backup and the chunk of a site, as spelled on a walk from a directory. -/
def pairFrom (directory : Path) (site : Site) : BackupPair :=
  ⟨directory.spelled (site.namesFrom directory ++ [site.backupName]),
    directory.spelled (site.namesFrom directory ++ [site.name])⟩

/-- A walk from a directory leads to the backup of a site. -/
structure Below (directory : Path) (site : Site) : Prop where
  within : site.directory = directory.location ++ site.namesFrom directory
  noNul : (site.pairFrom directory).backup.text.toList.contains '\x00' = false
  short : (site.pairFrom directory).backup.text.utf8ByteSize < FileTree.pathBound

theorem namesFrom_of_append {names : Location}
    (within : site.directory = directory.location ++ names) :
    site.namesFrom directory = names := by
  rw [namesFrom, within, List.drop_left]

theorem text_pairAlong (directory : Path) (names : Location) (site : Site) :
    (site.pairAlong directory names).backup.text =
      (site.pairAlong directory names).chunk.text ++ Chunk.backupSuffix := by
  rw [pairAlong, Path.spelled_concat, Path.spelled_concat]
  exact Path.text_join_append _ site.isName site.isName_backupName

theorem ofBackup?_pairAlong (directory : Path) (names : Location) (site : Site) :
    Chunk.ofBackup? (site.pairAlong directory names).backup =
      some (site.pairAlong directory names).chunk := by
  have stripped : Text.stripEnd? (site.pairAlong directory names).backup.text Chunk.backupSuffix =
      some (site.pairAlong directory names).chunk.text := by
    rw [Text.stripEnd?, text_pairAlong, Option.map_eq_some_iff]
    exact ⟨_, Text.dropEnd?_eq_some_iff.mpr String.toList_append, String.ofList_toList⟩
  rw [Chunk.ofBackup?, stripped]
  exact if_pos (Path.endsWith_spelled _ _ site.ending)

theorem text_pairFrom (directory : Path) (site : Site) :
    (site.pairFrom directory).backup.text =
      (site.pairFrom directory).chunk.text ++ Chunk.backupSuffix :=
  site.text_pairAlong directory _

theorem ofBackup?_pairFrom (directory : Path) (site : Site) :
    Chunk.ofBackup? (site.pairFrom directory).backup = some (site.pairFrom directory).chunk :=
  site.ofBackup?_pairAlong directory _

theorem mem_namesFrom {name : String} (member : name ∈ site.namesFrom directory) :
    name ∈ site.directory := List.mem_of_mem_drop member

/-- Both paths of a pair lead to the directory of the site, where their last names are looked
up. -/
theorem Below.resolve {tree : FileTree} (below : site.Below directory)
    (enters : tree.Enters directory) (opened : tree.Open [] site.directory) (follow : Bool) :
    tree.resolve follow (site.pairFrom directory).backup =
        tree.walk follow FileTree.linkLimit site.directory [site.backupName] ∧
      tree.resolve follow (site.pairFrom directory).chunk =
        tree.walk follow FileTree.linkLimit site.directory [site.name] := by
  have proper : ∀ name ∈ site.namesFrom directory, Path.IsName name :=
    fun name member => site.directoryNames name (mem_namesFrom member)
  have further : tree.Open directory.location (site.namesFrom directory) := by
    rw [below.within] at opened
    simpa using opened.right
  have noNul := below.noNul
  have short := below.short
  rw [text_pairFrom, String.utf8ByteSize_append] at short
  rw [text_pairFrom, String.toList_append] at noNul
  have chunkNoNul : (site.pairFrom directory).chunk.text.toList.contains '\x00' = false := by
    rw [Bool.eq_false_iff] at noNul ⊢
    intro found
    apply noNul
    rw [List.contains_iff_mem] at found ⊢
    exact List.mem_append_left _ found
  have chunkShort : (site.pairFrom directory).chunk.text.utf8ByteSize < FileTree.pathBound := by
    omega
  have toBackup := FileTree.resolve_spelled enters proper site.isName_backupName further
    below.noNul below.short follow
  have toChunk := FileTree.resolve_spelled enters proper site.isName further chunkNoNul
    chunkShort follow
  rw [← below.within] at toBackup toChunk
  exact ⟨toBackup, toChunk⟩

/-- The name of a site is shorter than that of its backup. -/
theorem name_fits {site : Site} (fits : site.backupName.utf8ByteSize ≤ FileTree.nameLimit) :
    site.name.utf8ByteSize ≤ FileTree.nameLimit := by
  have longer : site.backupName.utf8ByteSize =
      site.name.utf8ByteSize + Chunk.backupSuffix.utf8ByteSize := String.utf8ByteSize_append
  omega

/-- Both paths of a pair reach their files. -/
theorem Below.reaches {tree : FileTree} (below : site.Below directory) (linkFree : tree.LinkFree)
    (enters : tree.Enters directory) (opened : tree.Open [] site.directory)
    (accepted : FileTree.refusal? site.directory site.backupName = none) :
    tree.Reaches (site.pairFrom directory).backup site.backup ∧
      tree.Reaches (site.pairFrom directory).chunk site.location := by
  obtain ⟨-, -, fits⟩ := FileTree.text_of_refusal? accepted
  refine ⟨fun follow => ?_, fun follow => ?_⟩
  · exact (below.resolve enters opened follow).1.trans
      (FileTree.walk_last linkFree site.isName_backupName fits)
  · exact (below.resolve enters opened follow).2.trans
      (FileTree.walk_last linkFree site.isName (name_fits fits))

end Site

/-- An application that walks to the chunk of a site leads to its backup. -/
theorem Application.WalksTo.below {start : FileTree} {app : Application} {site : Site}
    (walks : app.WalksTo start site.path) (enters : start.Enters app.outputDir)
    (accepted : FileTree.refusal? site.directory site.backupName = none) :
    site.Below app.outputDir := by
  obtain ⟨-, names, nonempty, place, short⟩ := walks
  rw [Site.path, Path.location_pathOf fun _ => Site.isName_of_mem_location] at place
  obtain ⟨initial, last, rfl⟩ : ∃ initial last, names = initial ++ [last] :=
    ⟨_, _, (List.dropLast_concat_getLast nonempty).symm⟩
  rw [Site.location, ← List.append_assoc] at place
  obtain ⟨within, last⟩ := List.append_inj' place rfl
  cases last
  have names := Site.namesFrom_of_append within
  refine ⟨by rw [names, within], ?_, ?_⟩
  · have absent : '\x00' ∉ (FileTree.pathOf site.backup).text.toList :=
      (FileTree.text_of_refusal? accepted).1
    have inDirectory : '\x00' ∉ app.outputDir.text.toList := by
      have noNul := enters.noNul
      simpa using noNul
    rw [Bool.eq_false_iff]
    intro found
    rw [List.contains_iff_mem] at found
    rcases Path.mem_spelled found with found | found | ⟨name, member, found⟩
    · exact inDirectory found
    · cases found
    · refine Path.not_mem_name_of_pathOf absent ?_ found
      rcases List.mem_append.mp member with member | member
      · exact List.mem_append_left _ (Site.mem_namesFrom member)
      · exact List.mem_append_right _ member
  · rw [Site.text_pairFrom, Site.pairFrom, names]
    exact short

/-! ## Directories stay open -/

/-- Every entry is still there: directories as directories, the others as files. -/
def FileTree.Keeps (tree after : FileTree) : Prop :=
  ∀ location, (tree.entry? location = some .directory →
      after.entry? location = some .directory) ∧
    ∀ content, tree.entry? location = some (.file content) →
      ∃ now, after.entry? location = some (.file now)

theorem FileTree.Keeps.walk {tree after : FileTree} (keeps : tree.Keeps after)
    (linkFree : tree.LinkFree) {follow : Bool} {links : Nat} {here there : Location}
    {entry : Entry} {segments : List String}
    (reached : tree.walk follow links here segments = .ok (.occupied there entry)) :
    ∃ now, after.walk follow links here segments = .ok (.occupied there now) := by
  induction segments generalizing here with
  | nil =>
      rw [FileTree.walk] at reached ⊢
      cases reached
      exact ⟨_, rfl⟩
  | cons segment rest inductionHypothesis =>
      cases FileTree.goes_of_walk (linkFree _) reached with
      | on passes further =>
          obtain ⟨now, walked⟩ := inductionHypothesis further
          have afterPasses := passes.mono fun location => (keeps location).1
          have onward : after.walk follow links here ([segment] ++ rest) = _ :=
            FileTree.walk_of_passes afterPasses
          exact ⟨now, onward.trans walked⟩
      | last leads busy down fits noDirectory isLast same =>
          obtain ⟨rfl, found⟩ := FileTree.placeAt_eq_occupied same.symm
          rcases linkFree.entry?_cases (here ++ [segment]) with
            vacant | isDirectory | ⟨content, isFile⟩
          · rw [vacant] at found
            cases found
          · exact absurd isDirectory noDirectory
          · obtain ⟨now, kept⟩ := (keeps _).2 content isFile
            rw [isLast]
            exact ⟨_, FileTree.walk_file busy down fits kept⟩
      | slash leads blank same =>
          rcases same with same | same
          · cases same
          · cases same

/-- What can be looked up in a tree can be looked up as long as its entries are there. -/
theorem FileTree.Keeps.lookup {tree after : FileTree} (keeps : tree.Keeps after)
    (linkFree : tree.LinkFree) (workingDirectory : after.workingDirectory = tree.workingDirectory)
    {follow : Bool} {path : Path} {found : Location × Entry}
    (there : tree.lookup follow path = .ok found) :
    ∃ now, after.lookup follow path = .ok (found.1, now) := by
  obtain ⟨text, walked⟩ := FileTree.resolve_eq_ok_iff.mp (FileTree.lookup_eq_ok_iff.mp there)
  obtain ⟨now, afterWalked⟩ := keeps.walk linkFree walked
  rw [← workingDirectory] at afterWalked
  exact ⟨now, FileTree.lookup_eq_ok_iff.mpr (FileTree.resolve_eq_ok_iff.mpr ⟨text, afterWalked⟩)⟩

theorem Restorable.keeps {apps : List Application} {start tree : FileTree}
    (restorable : Restorable apps start tree) : start.Keeps tree := by
  intro location
  refine ⟨(restorable.directory_iff location).mpr, fun content original => ?_⟩
  rcases restorable.entry?_cases location with same | ⟨site, saved, place, isSaved, -⟩
  · exact ⟨content, same.trans original⟩
  · exact (Restorable.entry?_of_saved isSaved place).1

/-! ## The backups that are found -/

section Walk

variable {apps : List Application} {start tree : FileTree} {app : Application}

theorem entriesBelow_of_not_directory {directory : Path}
    (isDirectory : tree.isDirectory directory ≠ true) : tree.entriesBelow directory = [] := by
  rw [FileTree.entriesBelow]
  split
  next found =>
    rw [FileTree.isDirectory, found] at isDirectory
    exact absurd rfl isDirectory
  · rfl

theorem findBackups_of_not_directory {directory : Path}
    (isDirectory : tree.isDirectory directory ≠ true) :
    findBackups tree directory = .ok [] := by
  rw [findBackups, FileTree.pathsBelow, entriesBelow_of_not_directory isDirectory]
  rfl

theorem Restorable.barrier?_eq_none (restorable : Restorable apps start tree)
    (linkFree : start.LinkFree) (member : app ∈ apps) (enters : start.Enters app.outputDir)
    (enterable : Enterable start apps) :
    (tree.entriesBelow app.outputDir).findSome? tree.barrier? = none := by
  have treeEnters : tree.Enters app.outputDir :=
    enters.mono fun location => (restorable.directory_iff location).mpr
  rw [List.findSome?_eq_none_iff]
  rintro ⟨path, entry⟩ listed
  cases entry with
  | file content => rfl
  | link target => rfl
  | directory =>
      obtain ⟨names, nonempty, rfl, found⟩ :=
        (FileTree.mem_entriesBelow_iff treeEnters).mp listed
      have below : app.outputDir.location ++ names ≠ [] := by simp [nonempty]
      rw [← tree.entry?_of_ne_nil below, restorable.directory_iff,
        start.entry?_of_ne_nil below] at found
      have passable := enterable app member _
        ((FileTree.mem_entriesBelow_iff enters).mpr ⟨names, nonempty, rfl, found⟩)
      rw [FileTree.barrier?] at passable ⊢
      cases looked : start.lookup true (app.outputDir.spelled names) with
      | error cause => simp [looked] at passable
      | ok place =>
          obtain ⟨now, kept⟩ := restorable.keeps.lookup linkFree restorable.workingDirectory looked
          simp only [kept]

/-- An entry whose spelled path has the ending of backups is that of a saved chunk. -/
theorem Restorable.exists_saved (restorable : Restorable apps start tree)
    (noBackups : NoBackups start apps) (member : app ∈ apps) (enters : start.Enters app.outputDir)
    {names : Location} {entry : Entry} (nonempty : names ≠ [])
    (ends : Text.endsWith (app.outputDir.spelled names).text
      (Chunk.extension ++ Chunk.backupSuffix) = true)
    (found : tree.entries.get? (app.outputDir.location ++ names) = some entry) :
    ∃ site content, app.outputDir.location ++ names = site.backup ∧
      Saved start tree site content := by
  have absent : start.entries.get? (app.outputDir.location ++ names) = none := by
    cases original : start.entries.get? (app.outputDir.location ++ names) with
    | none => rfl
    | some entry =>
        have listed : app.outputDir.spelled names ∈ start.pathsBelow app.outputDir :=
          List.mem_map.mpr ⟨(_, entry),
            (FileTree.mem_entriesBelow_iff enters).mpr ⟨names, nonempty, rfl, original⟩, rfl⟩
        rw [noBackups app member _ listed] at ends
        cases ends
  rcases restorable.entries (app.outputDir.location ++ names) with
    same | ⟨site, content, place, saved, -⟩
  · rw [same, absent] at found
    cases found
  · rcases place with chunkPlace | backupPlace
    · have original := saved.original
      rw [start.entry?_of_ne_nil site.location_ne_nil, ← chunkPlace, absent] at original
      cases original
    · exact ⟨site, content, backupPlace, saved⟩

/-- What the walk makes of one path. -/
def FileTree.backupAt? (tree : FileTree) (path : Path) : Option BackupPair :=
  if tree.isFile path then (Chunk.ofBackup? path).map fun chunk => ⟨path, chunk⟩ else none

theorem FileTree.backupAt?_eq_some {path : Path} {pair : BackupPair}
    (found : tree.backupAt? path = some pair) :
    pair.backup = path ∧ tree.isFile path = true ∧ Chunk.ofBackup? path = some pair.chunk := by
  rw [backupAt?] at found
  split at found
  next isFile =>
    obtain ⟨chunk, belongs, rfl⟩ := Option.map_eq_some_iff.mp found
    exact ⟨rfl, isFile, belongs⟩
  · cases found

theorem endsWith_of_ofBackup? {path chunk : Path} (belongs : Chunk.ofBackup? path = some chunk) :
    Text.endsWith path.text (Chunk.extension ++ Chunk.backupSuffix) = true := by
  rw [Chunk.ofBackup?] at belongs
  split at belongs
  next text stripped =>
    split at belongs
    next ends =>
      obtain ⟨front, shape, rfl⟩ := Option.map_eq_some_iff.mp stripped
      rw [Text.dropEnd?_eq_some_iff] at shape
      obtain ⟨before, name⟩ := Text.endsWith_iff.mp ends
      rw [String.toList_ofList] at name
      refine Text.endsWith_iff.mpr ⟨before, ?_⟩
      rw [shape, name, String.toList_append, List.append_assoc]
    · cases belongs
  · cases belongs

theorem FileTree.text_of_isFile {path : Path} (isFile : tree.isFile path = true) :
    path.text.toList.contains '\x00' = false ∧ path.text.utf8ByteSize < FileTree.pathBound := by
  obtain ⟨location, content, found⟩ := FileTree.isFile_iff.mp isFile
  obtain ⟨⟨noNul, -, short⟩, -⟩ :=
    FileTree.resolve_eq_ok_iff.mp (FileTree.lookup_eq_ok_iff.mp found)
  exact ⟨noNul, short⟩

theorem eq_filterMap_of_findBackups {outputDir : Path} {pairs : List BackupPair}
    (found : findBackups tree outputDir = .ok pairs) :
    pairs = (tree.pathsBelow outputDir).filterMap tree.backupAt? := by
  rw [findBackups] at found
  split at found
  · cases found
  · cases found
    rfl

/-- A walk finds the files below a directory whose paths are those of backups. -/
theorem mem_findBackups_iff {outputDir : Path} {pairs : List BackupPair} {pair : BackupPair}
    (found : findBackups tree outputDir = .ok pairs) :
    pair ∈ pairs ↔ pair.backup ∈ tree.pathsBelow outputDir ∧ tree.isFile pair.backup = true ∧
      Chunk.ofBackup? pair.backup = some pair.chunk := by
  rw [eq_filterMap_of_findBackups found, List.mem_filterMap]
  constructor
  · rintro ⟨path, listed, taken⟩
    obtain ⟨rfl, isFile, belongs⟩ := FileTree.backupAt?_eq_some taken
    exact ⟨listed, isFile, belongs⟩
  · rintro ⟨listed, isFile, belongs⟩
    exact ⟨pair.backup, listed, by rw [FileTree.backupAt?, if_pos isFile, belongs]; rfl⟩

/-- Each backup that is found belongs to a saved chunk below the directory. -/
theorem Restorable.site_of_backupAt? (restorable : Restorable apps start tree)
    (noBackups : NoBackups start apps) (member : app ∈ apps) (enters : start.Enters app.outputDir)
    {names : Location} {entry : Entry} (nonempty : names ≠ []) {pair : BackupPair}
    (found : tree.entries.get? (app.outputDir.location ++ names) = some entry)
    (taken : tree.backupAt? (app.outputDir.spelled names) = some pair) :
    ∃ site content, app.outputDir.location ++ names = site.backup ∧
      Saved start tree site content ∧ site.Below app.outputDir ∧
      pair = site.pairFrom app.outputDir := by
  obtain ⟨path, isFile, belongs⟩ := FileTree.backupAt?_eq_some taken
  obtain ⟨site, content, place, saved⟩ := restorable.exists_saved noBackups member enters nonempty
    (endsWith_of_ofBackup? belongs) found
  refine ⟨site, content, place, saved, ?_⟩
  obtain ⟨initial, last, rfl⟩ : ∃ initial last, names = initial ++ [last] :=
    ⟨_, _, (List.dropLast_concat_getLast nonempty).symm⟩
  rw [Site.backup, ← List.append_assoc] at place
  obtain ⟨within, last⟩ := List.append_inj' place rfl
  cases last
  have names := Site.namesFrom_of_append within.symm
  have spelled : app.outputDir.spelled (initial ++ [site.backupName]) =
      (site.pairFrom app.outputDir).backup := by
    rw [Site.pairFrom, names]
  rw [spelled] at path isFile belongs
  obtain ⟨noNul, short⟩ := FileTree.text_of_isFile isFile
  refine ⟨⟨by rw [names, within], noNul, short⟩, ?_⟩
  rw [Site.ofBackup?_pairFrom] at belongs
  cases pair
  cases path
  cases belongs
  rfl

theorem FileTree.placeAt_injective (tree : FileTree) : Function.Injective tree.placeAt := by
  intro location other same
  rw [placeAt, placeAt] at same
  split at same
  · split at same
    · cases same
      rfl
    · cases same
  · split at same
    · cases same
    · cases same
      rfl

theorem FileTree.Reaches.unique {path : Path} {location other : Location}
    (reaches : tree.Reaches path location) (reaches' : tree.Reaches path other) :
    location = other :=
  tree.placeAt_injective (Except.ok.inj ((reaches true).symm.trans (reaches' true)))

theorem Restorable.reaches (restorable : Restorable apps start tree) (linkFree : start.LinkFree)
    (enters : start.Enters app.outputDir) {site : Site} {content : ByteArray}
    (saved : Saved start tree site content) (below : site.Below app.outputDir) :
    tree.Reaches (site.pairFrom app.outputDir).backup site.backup ∧
      tree.Reaches (site.pairFrom app.outputDir).chunk site.location :=
  below.reaches (restorable.linkFree linkFree)
    (enters.mono fun location => (restorable.directory_iff location).mpr)
    (saved.opened.mono fun location => (restorable.directory_iff location).mpr) saved.accepted

theorem FileTree.nodup_below (tree : FileTree) (location : Location) :
    ((tree.below location).map (·.1)).Nodup := by
  have keys := List.pairwise_map.mp tree.entries.nodup_keys
  rw [List.Nodup, List.pairwise_map, FileTree.below, List.pairwise_filterMap]
  apply keys.imp
  rintro ⟨first, entry⟩ ⟨second, other⟩ different ⟨names, _⟩ taken ⟨otherNames, _⟩ otherTaken rfl
  simp only at taken otherTaken
  split at taken
  next name rest shape =>
    split at otherTaken
    next otherName otherRest otherShape =>
      cases taken
      cases otherTaken
      rw [FileTree.isPrefixOf?_eq_some_iff] at shape otherShape
      exact different (shape.trans otherShape.symm)
    · cases otherTaken
  · cases taken

/-- Paths of different places have different backups. -/
theorem Restorable.backupAt?_unique (restorable : Restorable apps start tree)
    (linkFree : start.LinkFree) (noBackups : NoBackups start apps) (member : app ∈ apps)
    (enters : start.Enters app.outputDir) {names otherNames : Location} {entry other : Entry}
    {pair : BackupPair} (listed : (names, entry) ∈ tree.below app.outputDir.location)
    (otherListed : (otherNames, other) ∈ tree.below app.outputDir.location)
    (taken : tree.backupAt? (app.outputDir.spelled names) = some pair)
    (otherTaken : tree.backupAt? (app.outputDir.spelled otherNames) = some pair) :
    names = otherNames := by
  obtain ⟨nonempty, found⟩ := FileTree.mem_below_iff.mp listed
  obtain ⟨otherNonempty, otherFound⟩ := FileTree.mem_below_iff.mp otherListed
  obtain ⟨site, content, place, saved, below, shape⟩ :=
    restorable.site_of_backupAt? noBackups member enters nonempty found taken
  obtain ⟨otherSite, otherContent, otherPlace, otherSaved, otherBelow, otherShape⟩ :=
    restorable.site_of_backupAt? noBackups member enters otherNonempty otherFound otherTaken
  obtain ⟨reaches, -⟩ := restorable.reaches linkFree enters saved below
  obtain ⟨otherReaches, -⟩ := restorable.reaches linkFree enters otherSaved otherBelow
  rw [← shape] at reaches
  rw [← otherShape] at otherReaches
  have same := reaches.unique otherReaches
  rw [← place, ← otherPlace] at same
  exact List.append_cancel_left same

/-- The walk from an output directory finds the backups of the saved chunks below it, each of
them once. -/
theorem Restorable.findBackups_eq (restorable : Restorable apps start tree)
    (linkFree : start.LinkFree) (noBackups : NoBackups start apps)
    (enterable : Enterable start apps) (member : app ∈ apps)
    (enters : start.Enters app.outputDir) :
    ∃ pairs, findBackups tree app.outputDir = .ok pairs ∧ pairs.Nodup ∧
      (∀ pair ∈ pairs, ∃ site content, Saved start tree site content ∧
        site.Below app.outputDir ∧ pair = site.pairFrom app.outputDir) ∧
      ∀ site content, Saved start tree site content → site.Below app.outputDir →
        site.pairFrom app.outputDir ∈ pairs := by
  have treeEnters : tree.Enters app.outputDir :=
    enters.mono fun location => (restorable.directory_iff location).mpr
  refine ⟨(tree.pathsBelow app.outputDir).filterMap tree.backupAt?, ?_, ?_, ?_, ?_⟩
  · rw [findBackups,
      restorable.barrier?_eq_none linkFree member enters enterable]
    rfl
  · rw [FileTree.pathsBelow, FileTree.entriesBelow, treeEnters.lookup true, List.map_map,
      List.Nodup, List.pairwise_filterMap, List.pairwise_map]
    have distinct := List.pairwise_map.mp (tree.nodup_below app.outputDir.location)
    apply distinct.imp_of_mem
    intro first second listed otherListed different pair taken _ otherTaken same
    subst same
    exact different (restorable.backupAt?_unique linkFree noBackups member enters listed
      otherListed taken otherTaken)
  · intro pair listed
    obtain ⟨path, pathMember, taken⟩ := List.mem_filterMap.mp listed
    obtain ⟨⟨_, entry⟩, entryMember, rfl⟩ := List.mem_map.mp pathMember
    obtain ⟨names, nonempty, rfl, found⟩ :=
      (FileTree.mem_entriesBelow_iff treeEnters).mp entryMember
    obtain ⟨site, content, -, saved, below, shape⟩ :=
      restorable.site_of_backupAt? noBackups member enters nonempty found taken
    exact ⟨site, content, saved, below, shape⟩
  · intro site content saved below
    have isBackup := saved.backup
    rw [tree.entry?_of_ne_nil site.backup_ne_nil, Site.backup, below.within,
      List.append_assoc] at isBackup
    refine List.mem_filterMap.mpr ⟨(site.pairFrom app.outputDir).backup, ?_, ?_⟩
    · refine List.mem_map.mpr ⟨(_, .file content), ?_, rfl⟩
      exact (FileTree.mem_entriesBelow_iff treeEnters).mpr ⟨_, by simp, rfl, isBackup⟩
    · obtain ⟨reachesBackup, -⟩ := restorable.reaches linkFree enters saved below
      rw [FileTree.backupAt?, reachesBackup.isFile saved.backup, Site.ofBackup?_pairFrom]
      rfl

end Walk

end ChunkPrune
