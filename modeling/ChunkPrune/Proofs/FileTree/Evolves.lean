import ChunkPrune.Proofs.FileTree.LinkFree

/-!
# Reading and changing files at reached locations

Operations on a path that reaches a location depend on the entry there alone, and a
change is made there alone. A tree evolves at some places when files are written there
and nothing else happens: directories stay, links do not appear.
-/

namespace ChunkPrune

theorem Text.fromUTF8?_eq_some_iff {bytes : ByteArray} {text : String} :
    String.fromUTF8? bytes = some text ↔ bytes = text.toUTF8 := by
  rw [String.fromUTF8?]
  constructor
  · intro decoded
    split at decoded
    · cases decoded
      rfl
    · cases decoded
  · rintro rfl
    rw [dif_pos]
    rfl

namespace FileTree

variable {tree : FileTree} {path : Path} {location : Location}

/-! ## Operations -/

section Operations

theorem Reaches.lookup (reaches : tree.Reaches path location) {follow : Bool} {entry : Entry}
    (found : tree.entry? location = some entry) :
    tree.lookup follow path = .ok (location, entry) := by
  rw [FileTree.lookup, reaches follow, placeAt, found]

theorem Reaches.isFile (reaches : tree.Reaches path location) {content : ByteArray}
    (found : tree.entry? location = some (.file content)) : tree.isFile path = true := by
  rw [FileTree.isFile, reaches.lookup found]

theorem Reaches.readText (reaches : tree.Reaches path location) {content : ByteArray}
    (found : tree.entry? location = some (.file content)) :
    tree.readText path =
      match String.fromUTF8? content with
      | some text => .ok text
      | none => .error .notText := by
  have bytes : tree.readBytes path = .ok content := by rw [readBytes, reaches.lookup found]
  cases decoded : String.fromUTF8? content with
  | none => simp only [FileTree.readText, bytes, decoded]
  | some text => simp only [FileTree.readText, bytes, decoded]

theorem Reaches.length_file (reaches : tree.Reaches path location) {content : ByteArray}
    (found : tree.entry? location = some (.file content)) :
    tree.length path = .ok content.size := by
  rw [length, reaches.lookup found]

theorem Reaches.length_directory (reaches : tree.Reaches path location)
    (found : tree.entry? location = some .directory) :
    tree.length path = .ok directoryLength := by
  rw [length, reaches.lookup found]

theorem Reaches.writeFile (reaches : tree.Reaches path location) {before : ByteArray}
    (found : tree.entry? location = some (.file before)) (content : ByteArray) :
    tree.writeFile path content = .ok (tree.put location (.file content)) := by
  simp [FileTree.writeFile, writable, reaches true, placeAt, found]

theorem Reaches.appendFile (reaches : tree.Reaches path location) {before : ByteArray}
    (found : tree.entry? location = some (.file before)) (content : ByteArray) :
    tree.appendFile path content = .ok (tree.put location (.file (before ++ content))) := by
  rw [FileTree.appendFile, reaches.lookup found]

theorem Reaches.placeNew_vacant (reaches : tree.Reaches path location)
    (vacant : tree.entry? location = none) (content : ByteArray) :
    tree.placeNew path content = .ok (tree.put location (.file content)) := by
  simp [placeNew, reaches false, placeAt, vacant]

theorem Reaches.placeNew_occupied (reaches : tree.Reaches path location) {entry : Entry}
    (found : tree.entry? location = some entry) (content : ByteArray) :
    tree.placeNew path content = .error .alreadyExists := by
  simp [placeNew, reaches false, placeAt, found]

theorem Reaches.replaceAt_file (reaches : tree.Reaches path location) {before : ByteArray}
    (found : tree.entry? location = some (.file before)) (entry : Entry) :
    tree.replaceAt path entry = .ok (tree.put location entry) := by
  simp [replaceAt, reaches false, placeAt, found]

end Operations

/-! ## Evolving trees -/

/-- Files were written at some places, where no directories are, and nothing else
changed. -/
structure Evolves (places : Location → Prop) (before after : FileTree) : Prop where
  workingDirectory : after.workingDirectory = before.workingDirectory
  entries : ∀ location,
    after.entries.get? location = before.entries.get? location ∨
      location ≠ [] ∧ places location ∧ before.entry? location ≠ some .directory ∧
        ∃ content, after.entries.get? location = some (.file content)

namespace Evolves

variable {places : Location → Prop} {before middle after : FileTree}

theorem refl (places : Location → Prop) (tree : FileTree) : Evolves places tree tree :=
  ⟨rfl, fun _ => Or.inl rfl⟩

theorem put (below : location ≠ []) (place : places location)
    (noDirectory : tree.entry? location ≠ some .directory) (content : ByteArray) :
    Evolves places tree (tree.put location (.file content)) := by
  refine ⟨rfl, fun other => ?_⟩
  rw [entries_get?_put]
  by_cases same : location = other
  · subst same
    exact Or.inr ⟨below, place, noDirectory, content, if_pos rfl⟩
  · exact Or.inl (if_neg same)

theorem mono (evolves : Evolves places before after) {more : Location → Prop}
    (included : ∀ location, places location → more location) : Evolves more before after :=
  ⟨evolves.workingDirectory, fun location =>
    (evolves.entries location).imp id fun ⟨below, place, rest⟩ =>
      ⟨below, included location place, rest⟩⟩

theorem entry?_eq (evolves : Evolves places before after) (outside : ¬ places location) :
    after.entry? location = before.entry? location := by
  cases location with
  | nil => rfl
  | cons name rest =>
      rcases evolves.entries (name :: rest) with same | ⟨-, place, -⟩
      · exact same
      · exact absurd place outside

theorem entry?_cases (evolves : Evolves places before after) (location : Location) :
    after.entry? location = before.entry? location ∨
      places location ∧ before.entry? location ≠ some .directory ∧
        ∃ content, after.entry? location = some (.file content) := by
  cases location with
  | nil => exact Or.inl rfl
  | cons name rest =>
      rcases evolves.entries (name :: rest) with same | ⟨-, place, noDirectory, written⟩
      · exact Or.inl same
      · exact Or.inr ⟨place, noDirectory, written⟩

theorem directory (evolves : Evolves places before after)
    (found : before.entry? location = some .directory) :
    after.entry? location = some .directory := by
  rcases evolves.entry?_cases location with same | ⟨-, noDirectory, -⟩
  · rw [same, found]
  · exact absurd found noDirectory

theorem directory_iff (evolves : Evolves places before after) (location : Location) :
    after.entry? location = some .directory ↔ before.entry? location = some .directory := by
  refine ⟨fun found => ?_, evolves.directory⟩
  rcases evolves.entry?_cases location with same | ⟨-, -, content, written⟩
  · exact same.symm.trans found
  · rw [written] at found
    cases found

theorem file (evolves : Evolves places before after) {content : ByteArray}
    (found : before.entry? location = some (.file content)) :
    ∃ content', after.entry? location = some (.file content') := by
  rcases evolves.entry?_cases location with same | ⟨-, -, written⟩
  · exact ⟨content, same.trans found⟩
  · exact written

theorem linkFree (evolves : Evolves places before after) (linkFree : before.LinkFree) :
    after.LinkFree := by
  intro location target found
  rcases evolves.entry?_cases location with same | ⟨-, -, content, written⟩
  · exact linkFree location target (same.symm.trans found)
  · rw [written] at found
    cases found

theorem trans (first : Evolves places before middle) (second : Evolves places middle after) :
    Evolves places before after := by
  refine ⟨second.workingDirectory.trans first.workingDirectory, fun location => ?_⟩
  rcases second.entries location with same | ⟨below, place, noDirectory, written⟩
  · rw [same]
    exact first.entries location
  · refine Or.inr ⟨below, place, ?_, written⟩
    exact fun found => noDirectory (first.directory found)

theorem opened (evolves : Evolves places before after) {here names : Location}
    (opened : before.Open here names) : after.Open here names :=
  opened.mono fun _ found => evolves.directory found

end Evolves

/-! ## Changes through the path of a location -/

section Changes

variable {directory : Location} {name : String} {after : FileTree} {content : ByteArray}

theorem reaches_or_fails (linkFree : tree.LinkFree)
    (directoryNames : ∀ name ∈ directory, Path.IsName name) (isName : Path.IsName name) :
    tree.Reaches (pathOf (directory ++ [name])) (directory ++ [name]) ∨
      ∀ follow, ∃ cause,
        tree.resolve follow (pathOf (directory ++ [name])) = .error cause := by
  by_cases good : tree.Open [] directory ∧ refusal? directory name = none
  · exact Or.inl (reaches_of_open linkFree directoryNames isName good.1 good.2)
  · apply Or.inr
    intro follow
    cases resolved : tree.resolve follow (pathOf (directory ++ [name])) with
    | error cause => exact ⟨cause, rfl⟩
    | ok place => exact absurd (open_of_resolve linkFree directoryNames isName resolved) good

variable {places : Location → Prop}

theorem evolves_of_writeFile (linkFree : tree.LinkFree)
    (directoryNames : ∀ name ∈ directory, Path.IsName name) (isName : Path.IsName name)
    (place : places (directory ++ [name]))
    (written : tree.writeFile (pathOf (directory ++ [name])) content = .ok after) :
    Evolves places tree after := by
  rcases reaches_or_fails linkFree directoryNames isName with reaches | fails
  · rcases linkFree.entry?_cases (directory ++ [name]) with
      vacant | isDirectory | ⟨before, found⟩
    · simp only [writeFile, writable, reaches true, placeAt, vacant] at written
      cases written
      exact .put (by simp) place (by simp [vacant]) content
    · simp [writeFile, writable, reaches true, placeAt, isDirectory] at written
    · rw [reaches.writeFile found] at written
      cases written
      exact .put (by simp) place (by simp [found]) content
  · obtain ⟨cause, failed⟩ := fails true
    simp [writeFile, writable, failed] at written

theorem evolves_of_appendFile (linkFree : tree.LinkFree)
    (directoryNames : ∀ name ∈ directory, Path.IsName name) (isName : Path.IsName name)
    (place : places (directory ++ [name]))
    (written : tree.appendFile (pathOf (directory ++ [name])) content = .ok after) :
    Evolves places tree after := by
  rcases reaches_or_fails linkFree directoryNames isName with reaches | fails
  · rcases linkFree.entry?_cases (directory ++ [name]) with
      vacant | isDirectory | ⟨before, found⟩
    · simp [appendFile, lookup, reaches true, placeAt, vacant] at written
    · simp [appendFile, lookup, reaches true, placeAt, isDirectory] at written
    · rw [reaches.appendFile found] at written
      cases written
      exact .put (by simp) place (by simp [found]) _
  · obtain ⟨cause, failed⟩ := fails true
    simp [appendFile, lookup, failed] at written

theorem evolves_of_placeNew (linkFree : tree.LinkFree)
    (directoryNames : ∀ name ∈ directory, Path.IsName name) (isName : Path.IsName name)
    (place : places (directory ++ [name]))
    (placed : tree.placeNew (pathOf (directory ++ [name])) content = .ok after) :
    Evolves places tree after := by
  rcases reaches_or_fails linkFree directoryNames isName with reaches | fails
  · cases found : tree.entry? (directory ++ [name]) with
    | none =>
        rw [reaches.placeNew_vacant found] at placed
        cases placed
        exact .put (by simp) place (by simp [found]) content
    | some entry =>
        rw [reaches.placeNew_occupied found] at placed
        cases placed
  · obtain ⟨cause, failed⟩ := fails false
    simp [placeNew, failed] at placed

theorem evolves_of_replaceAt (linkFree : tree.LinkFree)
    (directoryNames : ∀ name ∈ directory, Path.IsName name) (isName : Path.IsName name)
    (place : places (directory ++ [name]))
    (replaced : tree.replaceAt (pathOf (directory ++ [name])) (.file content) = .ok after) :
    Evolves places tree after := by
  rcases reaches_or_fails linkFree directoryNames isName with reaches | fails
  · rcases linkFree.entry?_cases (directory ++ [name]) with
      vacant | isDirectory | ⟨before, found⟩
    · simp only [replaceAt, reaches false, placeAt, vacant] at replaced
      cases replaced
      exact .put (by simp) place (by simp [vacant]) content
    · simp [replaceAt, reaches false, placeAt, isDirectory] at replaced
    · rw [reaches.replaceAt_file found] at replaced
      cases replaced
      exact .put (by simp) place (by simp [found]) content
  · obtain ⟨cause, failed⟩ := fails false
    simp [replaceAt, failed] at replaced

end Changes

end FileTree

end ChunkPrune
