import ChunkPrune.Chunk
import ChunkPrune.Proofs.Path.Join

/-!
# Chunk sites

A chunk of a report with an absolute output directory stands at a site: a directory
below the output directory and a name that ends as the names of chunks do. Sites and
their backups never share a location, whatever the reports say.
-/

namespace ChunkPrune

/-- The place of a chunk file: its directory, and its name with the ending of chunks. -/
structure Site where
  directory : Location
  name : String
  directoryNames : ∀ name ∈ directory, Path.IsName name
  isName : Path.IsName name
  ending : Text.endsWith name Chunk.extension = true

/-- A location strictly within a directory. -/
def Within (directory : Path) (location : Location) : Prop :=
  ∃ names, names ≠ [] ∧ location = directory.location ++ names

namespace Site

def location (site : Site) : Location := site.directory ++ [site.name]

def backupName (site : Site) : String := site.name ++ Chunk.backupSuffix

/-- Where the backup of the chunk at a site stands. -/
def backup (site : Site) : Location := site.directory ++ [site.backupName]

def path (site : Site) : Path := FileTree.pathOf site.location

theorem isName_backupName (site : Site) : Path.IsName site.backupName := by
  refine Path.isName_of_endsWith (Text.endsWith_append site.name Chunk.backupSuffix)
    (by decide) ?_
  rw [backupName, String.toList_append]
  intro slash
  rcases List.mem_append.mp slash with slash | slash
  · exact site.isName.noSlash slash
  · exact absurd slash (by decide)

theorem isName_of_mem_location {site : Site} {name : String} (member : name ∈ site.location) :
    Path.IsName name := by
  rcases List.mem_append.mp member with member | member
  · exact site.directoryNames name member
  · exact List.mem_singleton.mp member ▸ site.isName

/-- A name does not end both as a chunk and as a backup. -/
theorem not_endsWith_backupSuffix {name : String}
    (ending : Text.endsWith name Chunk.extension = true) :
    Text.endsWith name Chunk.backupSuffix = false := by
  rw [Bool.eq_false_iff]
  intro other
  have last := (Text.getLast?_of_endsWith ending (by decide)).symm.trans
    (Text.getLast?_of_endsWith other (by decide))
  exact absurd last (by decide)

theorem location_ne_nil (site : Site) : site.location ≠ [] := by simp [location]

theorem backup_ne_nil (site : Site) : site.backup ≠ [] := by simp [backup]

theorem location_ne_backup (site other : Site) : site.location ≠ other.backup := by
  intro same
  have names : site.name = other.backupName :=
    (List.append_inj_right' same rfl |> List.cons.inj).1
  have ends := not_endsWith_backupSuffix site.ending
  rw [names, backupName, Text.endsWith_append] at ends
  cases ends

theorem ext_location {site other : Site} (same : site.location = other.location) :
    site = other := by
  obtain ⟨directories, names⟩ := List.append_inj' same rfl
  cases site
  cases other
  cases directories
  cases (List.cons.inj names).1
  rfl

theorem ext_backup {site other : Site} (same : site.backup = other.backup) : site = other := by
  obtain ⟨directories, names⟩ := List.append_inj' same rfl
  have name : site.name = other.name := by
    have whole := congrArg String.toList (List.cons.inj names).1
    rw [backupName, backupName, String.toList_append, String.toList_append] at whole
    exact String.toList_inj.mp (List.append_cancel_right whole)
  exact ext_location (by rw [location, location, directories, name])

theorem path_injective : Function.Injective path := fun _ _ same =>
  ext_location (Path.pathOf_injective (fun _ => isName_of_mem_location)
    (fun _ => isName_of_mem_location) same)

theorem sameSteps_path_iff {site other : Site} :
    site.path.sameSteps other.path = true ↔ site = other :=
  (Path.sameSteps_pathOf_iff (fun _ => isName_of_mem_location)
    fun _ => isName_of_mem_location).trans ⟨ext_location, congrArg location⟩

theorem backupPath_path (site : Site) :
    Chunk.backupPath site.path = FileTree.pathOf site.backup := by
  have texts : Path.slashed site.location ++ Chunk.backupSuffix = Path.slashed site.backup := by
    rcases List.eq_nil_or_concat site.directory with empty | ⟨initial, last, shape⟩
    · simp [location, backup, empty, Path.slashed, backupName]
    · rw [location, backup, Path.slashed, Path.slashed, shape,
        String.intercalate_append_of_ne_nil (by simp) (by simp),
        String.intercalate_append_of_ne_nil (by simp) (by simp)]
      simp [backupName, String.append_assoc]
  rw [Chunk.backupPath, Path.append, path, FileTree.pathOf, FileTree.pathOf, ← texts,
    String.append_assoc]

end Site

namespace Chunk

theorem endsWith_extension_of_isTarget {fileName : String} (target : isTarget fileName = true) :
    Text.endsWith fileName extension = true :=
  (Bool.and_eq_true_iff.mp target).1

/-- The path of a file name in an absolute output directory is that of a site strictly
within the directory. -/
theorem exists_site_of_resolvePath? {outputDir path : Path} {fileName : String}
    (absolute : outputDir.isAbsolute = true) (target : isTarget fileName = true)
    (resolved : resolvePath? outputDir fileName = some path) :
    ∃ site : Site, path = site.path ∧ outputDir.location <+: site.directory := by
  have joinedAbsolute := Path.isAbsolute_join ⟨fileName⟩ absolute
  obtain ⟨front, joinedText⟩ := Path.exists_join_text outputDir ⟨fileName⟩
  have joinedEnds : Text.endsWith (outputDir.join ⟨fileName⟩).text extension = true := by
    rw [joinedText]
    exact Text.endsWith_of_append (endsWith_extension_of_isTarget target)
  obtain ⟨initial, last, segments, lastEnds⟩ :=
    Path.exists_last_segment joinedEnds (by decide)
  have lastMember : last ∈ (outputDir.join ⟨fileName⟩).segments := by simp [segments]
  have lastName : Path.IsName last :=
    Path.isName_of_endsWith lastEnds (by decide) (Path.slash_not_mem_segment lastMember)
  have place : (outputDir.join ⟨fileName⟩).location = Path.follow [] initial ++ [last] := by
    rw [Path.location, segments, Path.follow_append]
    exact Path.follow_names fun name member => List.mem_singleton.mp member ▸ lastName
  have proper : ∀ name ∈ Path.follow [] initial ++ [last], Path.IsName name :=
    fun name member => Path.isName_of_mem_location (place ▸ member)
  rw [resolvePath?, Path.clean_eq_pathOf absolute, Path.clean_eq_pathOf joinedAbsolute,
    place] at resolved
  split at resolved
  next within =>
    obtain ⟨under, strictly⟩ := Bool.and_eq_true_iff.mp within
    let site : Site :=
      ⟨Path.follow [] initial, last, fun name member => proper name (by simp [member]),
        lastName, lastEnds⟩
    refine ⟨site, (Option.some.inj resolved).symm, ?_⟩
    rw [Path.isUnder, Path.components_pathOf fun _ => Path.isName_of_mem_location,
      Path.components_pathOf proper, List.isPrefixOf_iff_prefix] at under
    have stem : outputDir.location <+: Path.follow [] initial ++ [last] :=
      (List.prefix_map_iff_of_injective fun _ _ same => Path.Component.name.inj same).mp
        (List.cons_prefix_cons.mp under).2
    rcases List.prefix_concat_iff.mp stem with whole | stem
    · rw [Path.sameSteps, whole, beq_self_eq_true] at strictly
      cases strictly
    · exact stem
  next => cases resolved

/-- In its directory, however that is spelled, the name of a site is resolved to its path. -/
theorem resolvePath?_of_location {outputDir : Path} {site : Site}
    (absolute : outputDir.isAbsolute = true) (place : outputDir.location = site.directory) :
    resolvePath? outputDir site.name = some site.path := by
  have joined : (outputDir.join ⟨site.name⟩).location = site.location := by
    rw [Path.location_join absolute (Path.isAbsolute_name site.isName), place,
      Path.segments_name site.isName,
      Path.follow_names fun name member => List.mem_singleton.mp member ▸ site.isName]
    rfl
  have base : outputDir.clean = FileTree.pathOf site.directory := by
    rw [Path.clean_eq_pathOf absolute, place]
  have path : (outputDir.join ⟨site.name⟩).clean = site.path := by
    rw [Path.clean_eq_pathOf (Path.isAbsolute_join _ absolute), joined]
    rfl
  have under : site.path.isUnder (FileTree.pathOf site.directory) = true := by
    rw [Path.isUnder, Site.path, Path.components_pathOf fun _ => Site.isName_of_mem_location,
      Path.components_pathOf site.directoryNames, List.isPrefixOf_iff_prefix, Site.location]
    simp
  have strictly : site.path.sameSteps (FileTree.pathOf site.directory) = false := by
    rw [Bool.eq_false_iff]
    intro same
    have whole := (Path.sameSteps_pathOf_iff (fun _ => Site.isName_of_mem_location)
      site.directoryNames).mp same
    simp [Site.location] at whole
  rw [resolvePath?, base, path, under, strictly]
  rfl

end Chunk

end ChunkPrune
