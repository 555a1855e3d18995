import ChunkPrune.Proofs.FileTree.OnDisk
import ChunkPrune.Proofs.Restore.Walk

/-!
# Backups that return

Restoring moves what stands at the backup of a site over its chunk, a file or a link that leads
to one, and does nothing else. In a tree with links too, this makes and removes no directory,
and leads no path to one that has not led there before.
-/

namespace ChunkPrune

/-- The tree after what stands at the backup of a site was moved over its chunk. -/
def FileTree.moveOver (tree : FileTree) (site : Site) (entry : Entry) : FileTree :=
  (tree.put site.location entry).remove site.backup

/-- What stood at the backup of a site stands at its chunk. -/
structure Site.Returned (site : Site) (before after : FileTree) (entry : Entry) : Prop where
  noDirectory : entry ≠ .directory
  chunkBefore : before.entry? site.location ≠ some .directory
  backupBefore : before.entry? site.backup = some entry
  chunk : after.entry? site.location = some entry
  backup : after.entry? site.backup = none

/-- The backups of some sites have returned, and nothing else has changed. -/
structure FileTree.Returns (sites : Site → Prop) (before after : FileTree) : Prop where
  workingDirectory : after.workingDirectory = before.workingDirectory
  entries : ∀ location, after.entry? location = before.entry? location ∨
    ∃ site entry, sites site ∧ site.Places location ∧ site.Returned before after entry

namespace FileTree

/-! ## Moving one entry -/

section MoveOver

variable {site : Site} {location : Location}

theorem entry?_moveOver_backup (tree : FileTree) (site : Site) (entry : Entry) :
    FileTree.entry? (tree.moveOver site entry) site.backup = none :=
  entry?_remove_self site.backup_ne_nil

theorem entry?_moveOver_location (tree : FileTree) (site : Site) (entry : Entry) :
    FileTree.entry? (tree.moveOver site entry) site.location = some entry := by
  rw [moveOver, entry?_remove_of_ne (Site.location_ne_backup site site).symm,
    entry?_put_self site.location_ne_nil]

theorem entry?_moveOver (tree : FileTree) (entry : Entry) (outside : ¬ site.Places location) :
    FileTree.entry? (tree.moveOver site entry) location = tree.entry? location := by
  have notBackup : site.backup ≠ location := fun same => outside (Or.inr same.symm)
  have notChunk : site.location ≠ location := fun same => outside (Or.inl same.symm)
  rw [moveOver, entry?_remove_of_ne notBackup, entry?_put_of_ne notChunk]

end MoveOver

/-! ## Trees with backups returned -/

namespace Returns

variable {sites : Site → Prop} {before middle after : FileTree} {site : Site} {entry : Entry}

theorem refl (sites : Site → Prop) (tree : FileTree) : Returns sites tree tree :=
  ⟨rfl, fun _ => Or.inl rfl⟩

theorem mono (returns : Returns sites before after) {more : Site → Prop}
    (included : ∀ site, sites site → more site) : Returns more before after := by
  refine ⟨returns.workingDirectory, fun location => (returns.entries location).imp_right ?_⟩
  rintro ⟨site, entry, belongs, returned⟩
  exact ⟨site, entry, included site belongs, returned⟩

/-- Both files of a site are as before, or its backup has returned. -/
theorem site_cases (returns : Returns sites before after) (site : Site) :
    after.entry? site.location = before.entry? site.location ∧
        after.entry? site.backup = before.entry? site.backup ∨
      ∃ entry, sites site ∧ site.Returned before after entry := by
  have own : ∀ {location : Location}, site.Places location →
      after.entry? location = before.entry? location ∨
        ∃ entry, sites site ∧ site.Returned before after entry := by
    intro location place
    rcases returns.entries location with same | ⟨other, entry, belongs, otherPlace, returned⟩
    · exact Or.inl same
    · obtain rfl := Site.eq_of_places otherPlace place
      exact Or.inr ⟨entry, belongs, returned⟩
  rcases own site.places_location with chunkSame | returned
  · rcases own site.places_backup with backupSame | returned
    · exact Or.inl ⟨chunkSame, backupSame⟩
    · exact Or.inr returned
  · exact Or.inr returned

/-- What stands at a backup has stood there. -/
theorem backup_cases (returns : Returns sites before after) (site : Site) :
    after.entry? site.backup = before.entry? site.backup ∨ after.entry? site.backup = none := by
  rcases returns.site_cases site with ⟨-, same⟩ | ⟨entry, -, returned⟩
  · exact Or.inl same
  · exact Or.inr returned.backup

/-- A backup that is gone stays away. -/
theorem gone (returns : Returns sites before after) (gone : before.entry? site.backup = none) :
    after.entry? site.backup = none := by
  rcases returns.backup_cases site with same | gone
  · exact same.trans gone
  · exact gone

theorem directory_iff (returns : Returns sites before after) (location : Location) :
    after.entry? location = some .directory ↔ before.entry? location = some .directory := by
  rcases returns.entries location with same | ⟨site, entry, -, rfl | rfl, returned⟩
  · rw [same]
  · refine iff_of_false ?_ returned.chunkBefore
    rw [returned.chunk]
    exact fun same => returned.noDirectory (Option.some.inj same)
  · rw [returned.backup, returned.backupBefore]
    refine iff_of_false (by simp) fun same => returned.noDirectory (Option.some.inj same)

theorem onDisk (returns : Returns sites before after) (onDisk : before.OnDisk) :
    after.OnDisk := by
  have stands : ∀ location entry, after.entry? location = some entry →
      before.entry? location.dropLast = some .directory ∧ ∀ name ∈ location, EntryName name := by
    intro location entry found
    rcases returns.entries location with same | ⟨site, moved, -, rfl | rfl, returned⟩
    · rw [same] at found
      exact ⟨onDisk.wellFormed _ _ found, onDisk.names _ _ found⟩
    · obtain ⟨isDirectory, proper⟩ := onDisk.parent returned.backupBefore
      refine ⟨by rw [Site.location, List.dropLast_concat]; exact isDirectory, ?_⟩
      intro name member
      rcases List.mem_append.mp member with member | member
      · exact onDisk.names _ _ isDirectory name member
      · rw [List.mem_singleton.mp member]
        exact ⟨site.isName, Site.name_fits proper.fits⟩
    · rw [returned.backup] at found
      cases found
  refine ⟨fun location entry found => ?_, fun location entry found => (stands _ _ found).2, ?_⟩
  · exact (returns.directory_iff _).mpr (stands _ _ found).1
  · rw [returns.workingDirectory]
    exact (returns.directory_iff _).mpr onDisk.workingDirectory

/-- One more backup returns. -/
theorem moveOver (returns : Returns sites before after) (belongs : sites site)
    (noDirectory : entry ≠ .directory) (backup : after.entry? site.backup = some entry)
    (chunk : after.entry? site.location ≠ some .directory) :
    Returns sites before (after.moveOver site entry) := by
  have backupBefore : before.entry? site.backup = some entry := by
    rcases returns.backup_cases site with same | gone
    · exact same.symm.trans backup
    · rw [gone] at backup
      cases backup
  have own : site.Returned before (after.moveOver site entry) entry :=
    ⟨noDirectory, fun isDirectory => chunk ((returns.directory_iff _).mpr isDirectory),
      backupBefore, entry?_moveOver_location after site entry,
      entry?_moveOver_backup after site entry⟩
  refine ⟨returns.workingDirectory, fun location => ?_⟩
  by_cases place : site.Places location
  · exact Or.inr ⟨site, entry, belongs, place, own⟩
  · rw [entry?_moveOver after entry place]
    rcases returns.entries location with same | ⟨other, moved, otherBelongs, otherPlace, returned⟩
    · exact Or.inl same
    · have different : site ≠ other := fun same => place (same ▸ otherPlace)
      obtain ⟨chunkOutside, backupOutside⟩ := Site.not_places_of_ne different
      refine Or.inr ⟨other, moved, otherBelongs, otherPlace, returned.noDirectory,
        returned.chunkBefore, returned.backupBefore, ?_, ?_⟩
      · rw [entry?_moveOver after entry chunkOutside, returned.chunk]
      · rw [entry?_moveOver after entry backupOutside, returned.backup]

theorem trans (first : Returns sites before middle) (second : Returns sites middle after) :
    Returns sites before after := by
  refine ⟨second.workingDirectory.trans first.workingDirectory, fun location => ?_⟩
  rcases second.entries location with same | ⟨site, entry, belongs, place, returned⟩
  · rw [same]
    rcases first.entries location with same | ⟨site, entry, belongs, place, returned⟩
    · exact Or.inl same
    · refine Or.inr ⟨site, entry, belongs, place, ?_⟩
      -- the backup is gone already, so it does not return a second time
      rcases second.site_cases site with ⟨chunkSame, backupSame⟩ | ⟨again, -, returnedAgain⟩
      · exact ⟨returned.noDirectory, returned.chunkBefore, returned.backupBefore,
          chunkSame.trans returned.chunk, backupSame.trans returned.backup⟩
      · have gone := returnedAgain.backupBefore
        rw [returned.backup] at gone
        cases gone
  · refine Or.inr ⟨site, entry, belongs, place, returned.noDirectory, ?_, ?_, returned.chunk,
      returned.backup⟩
    · exact fun isDirectory => returned.chunkBefore ((first.directory_iff _).mpr isDirectory)
    · rcases first.backup_cases site with same | gone
      · exact same.symm.trans returned.backupBefore
      · have stood := returned.backupBefore
        rw [gone] at stood
        cases stood

/-- When links that return lead to files, a path to a directory has led to one before. -/
theorem isDirectory (returns : Returns sites before after)
    (toFiles : ∀ site, sites site → ∀ target,
      before.entry? site.backup = some (.link target) → ∃ links location content,
        before.Route true links (start site.directory target) target.segments
          (.occupied location (.file content)))
    {path : Path} (isDirectory : after.isDirectory path = true) :
    before.isDirectory path = true := by
  obtain ⟨location, found⟩ := isDirectory_iff.mp isDirectory
  obtain ⟨text, walked⟩ := resolve_eq_ok_iff.mp (lookup_eq_ok_iff.mp found)
  rw [returns.workingDirectory] at walked
  have linked : ∀ here name target, after.entry? (here ++ [name]) = some (.link target) →
      before.entry? (here ++ [name]) = some (.link target) ∨ ∃ site, sites site ∧
        here = site.directory ∧ before.entry? site.backup = some (.link target) := by
    intro here name target link
    rcases returns.entries (here ++ [name]) with
      same | ⟨site, entry, belongs, place | place, returned⟩
    · exact Or.inl (same.symm.trans link)
    · rw [place, returned.chunk] at link
      have inDirectory : here = site.directory := (List.append_inj' place rfl).1
      exact Or.inr ⟨site, belongs, inDirectory, returned.backupBefore.trans link⟩
    · rw [place, returned.backup] at link
      cases link
  rcases (route_of_walk walked).back (fun _ => (returns.directory_iff _).mp) linked with
    route | ⟨base, target, links, directory, ⟨site, belongs, rfl, link⟩, route⟩
  · refine isDirectory_iff.mpr ⟨location, lookup_eq_ok_iff.mpr ?_⟩
    exact resolve_eq_ok_iff.mpr ⟨text, route.walk⟩
  · obtain ⟨fewer, place, content, toFile⟩ := toFiles site belongs target link
    cases route.unique toFile

end Returns

end FileTree

end ChunkPrune
