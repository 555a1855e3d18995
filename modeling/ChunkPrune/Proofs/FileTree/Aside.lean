import ChunkPrune.Proofs.FileTree.OnDisk
import ChunkPrune.Proofs.Table.Entry

/-!
# Files written aside of a route

A file that is put at a location does not disturb the routes that end elsewhere, unless they go on
through the location. They do not when no directory stands there, and no link that leads further
than to a file. So the path of a chunk still leads to it when its backup was written, and the path
of the backup to the backup when the chunk was written.
-/

namespace ChunkPrune

/-- What stands where names lead to, if something does. -/
def Place.entry? : Place → Option Entry
  | .occupied _ entry => some entry
  | .slashed _ => none
  | .vacant _ _ => none

namespace FileTree

variable {tree : FileTree} {follow : Bool} {links : Nat} {here location there : Location}
  {names : List String} {place : Place} {entry : Entry}

/-- Where a route ends at a place for an entry, the entry of the place stands. -/
theorem Route.entry?_eq (route : tree.Route follow links here names place)
    (takes : TakesEntry location place) : tree.entry? location = place.entry? := by
  induction route with
  | stay =>
      cases takes with
      | occupied noDirectory => exact absurd rfl noDirectory
  | idle idle further inductionHypothesis => exact inductionHypothesis takes
  | up further inductionHypothesis => exact inductionHypothesis takes
  | enter isStep directory further inductionHypothesis => exact inductionHypothesis takes
  | @free links here name rest isStep vacant blank =>
      cases rest with
      | cons other others => cases takes
      | nil =>
          cases takes
          exact vacant
  | file isStep file =>
      cases takes
      exact file
  | slash isStep file more blank => cases takes
  | link isStep link unfollowed =>
      cases takes
      exact link
  | through isStep link followed further inductionHypothesis => exact inductionHypothesis takes

/-- Links that are followed to the end do not end at a link. -/
theorem Route.not_link {target : Path} (route : tree.Route true links here names place) :
    place ≠ .occupied location (.link target) := by
  induction route with
  | stay => simp
  | idle idle further inductionHypothesis => exact inductionHypothesis
  | up further inductionHypothesis => exact inductionHypothesis
  | enter isStep directory further inductionHypothesis => exact inductionHypothesis
  | free isStep vacant blank => simp
  | file isStep file => simp
  | slash isStep file more blank => simp
  | link isStep link unfollowed => cases unfollowed
  | through isStep link followed further inductionHypothesis => exact inductionHypothesis

/-- A route that does not end at a link leads to the same place when links are followed. -/
theorem Route.followed (route : tree.Route follow links here names place)
    (noLink : ∀ location target, place ≠ .occupied location (.link target)) :
    tree.Route true links here names place := by
  induction route with
  | stay => exact .stay
  | idle idle further inductionHypothesis => exact .idle idle (inductionHypothesis noLink)
  | up further inductionHypothesis => exact .up (inductionHypothesis noLink)
  | enter isStep directory further inductionHypothesis =>
      exact .enter isStep directory (inductionHypothesis noLink)
  | free isStep vacant blank => exact .free isStep vacant blank
  | file isStep file => exact .file isStep file
  | slash isStep file more blank => exact .slash isStep file more blank
  | link isStep link unfollowed => exact absurd rfl (noLink _ _)
  | through isStep link followed further inductionHypothesis =>
      exact .through isStep link (Or.inl rfl) (inductionHypothesis noLink)

/-- A name that leads to a place in a directory is looked up there. -/
theorem Route.isStep {name : String} (route : tree.Route follow links here [name] place)
    (isName : Path.IsName name) : IsStep name := by
  cases route with
  | idle idle further =>
      rw [isName.notIdle] at idle
      cases idle
  | up further => exact absurd rfl isName.notUp
  | enter isStep directory further => exact isStep
  | free isStep vacant blank => exact isStep
  | file isStep file => exact isStep
  | slash isStep file more blank => exact isStep
  | link isStep link unfollowed => exact isStep
  | through isStep link followed further => exact isStep

/-- A file in the directory at the end of a route is reached with one more name. -/
theorem Route.file_of_directory {name : String} {content : ByteArray}
    (route : tree.Route true links here names (.occupied there .directory))
    (isStep : IsStep name) (file : tree.entry? (there ++ [name]) = some (.file content)) :
    tree.Route true links here (names ++ [name])
      (.occupied (there ++ [name]) (.file content)) := by
  generalize reached : Place.occupied there .directory = place at route
  induction route with
  | stay =>
      cases reached
      exact .file isStep file
  | idle idle further inductionHypothesis => exact .idle idle (inductionHypothesis reached)
  | up further inductionHypothesis => exact .up (inductionHypothesis reached)
  | enter isStep directory further inductionHypothesis =>
      exact .enter isStep directory (inductionHypothesis reached)
  | free isStep vacant blank => cases reached
  | file isStep file => cases reached
  | slash isStep file more blank => cases reached
  | link isStep link unfollowed => cases reached
  | through isStep link followed further inductionHypothesis =>
      have onward := inductionHypothesis reached
      rw [List.append_assoc] at onward
      exact .through isStep link (Or.inl rfl) onward

/-! ## Dead ends -/

/-- Nothing but a place goes on from a location: no directory stands there, and a link there leads
to a file, which is not the place. -/
structure DeadEnd (tree : FileTree) (location : Location) (place : Place) : Prop where
  noDirectory : tree.entry? location ≠ some .directory
  linked : ∀ base name target, location = base ++ [name] →
    tree.entry? location = some (.link target) → ∃ links goal content,
      tree.Route true links (start base target) target.segments (.occupied goal (.file content)) ∧
        Place.occupied goal (.file content) ≠ place

/-- What was put at a dead end leaves the routes to other places as they are. -/
theorem Route.put_aside (route : tree.Route true links here names (.occupied there entry))
    (deadEnd : tree.DeadEnd location (.occupied there entry))
    (aside : entry = .directory ∨ there ≠ location) (other : Entry) :
    (tree.put location other).Route true links here names (.occupied there entry) := by
  generalize reached : Place.occupied there entry = place at route
  induction route with
  | stay =>
      cases reached
      exact .stay
  | idle idle further inductionHypothesis => exact .idle idle (inductionHypothesis reached)
  | up further inductionHypothesis => exact .up (inductionHypothesis reached)
  | @enter links here name rest place isStep directory further inductionHypothesis =>
      have elsewhere : location ≠ here ++ [name] :=
        fun same => deadEnd.noDirectory (same ▸ directory)
      exact .enter isStep ((entry?_put_of_ne elsewhere _).trans directory)
        (inductionHypothesis reached)
  | free isStep vacant blank => cases reached
  | @file links here name content isStep file =>
      cases reached
      rcases aside with isDirectory | elsewhere
      · cases isDirectory
      · exact .file isStep ((entry?_put_of_ne (Ne.symm elsewhere) _).trans file)
  | slash isStep file more blank => cases reached
  | link isStep link unfollowed => cases unfollowed
  | @through links here name rest target place isStep link followed further
      inductionHypothesis =>
      by_cases same : location = here ++ [name]
      · -- the link leads to a file, where the names can only end
        obtain ⟨fewer, goal, content, leads, different⟩ :=
          deadEnd.linked here name target same (same ▸ link)
        rw [← reached] at further
        by_cases last : rest = []
        · rw [last, List.append_nil] at further
          exact absurd (leads.unique further) different
        · obtain ⟨directory, others, front, -⟩ := further.split last fun _ => ⟨nofun, nofun⟩
          cases leads.unique front
      · exact .through isStep ((entry?_put_of_ne same _).trans link) followed
          (inductionHypothesis reached)

theorem lookup_put_aside {path : Path} (found : tree.lookup true path = .ok (there, entry))
    (deadEnd : tree.DeadEnd location (.occupied there entry))
    (aside : entry = .directory ∨ there ≠ location) (other : Entry) :
    (tree.put location other).lookup true path = .ok (there, entry) := by
  obtain ⟨text, walked⟩ := resolve_eq_ok_iff.mp (lookup_eq_ok_iff.mp found)
  have route := (route_of_walk walked).put_aside deadEnd aside other
  exact lookup_eq_ok_iff.mpr (resolve_eq_ok_iff.mpr ⟨text, route.walk⟩)

theorem entry?_of_lookup_file {path : Path} {content : ByteArray}
    (found : tree.lookup follow path = .ok (location, .file content)) :
    tree.entry? location = some (.file content) := by
  obtain ⟨-, walked⟩ := resolve_eq_ok_iff.mp (lookup_eq_ok_iff.mp found)
  exact (route_of_walk walked).entry?_eq (.occupied nofun)

/-- Where a file stands, nothing goes on. -/
theorem deadEnd_of_file {content : ByteArray} (file : tree.entry? location = some (.file content))
    (place : Place) : tree.DeadEnd location place := by
  constructor
  · rw [file]
    exact nofun
  · intro base name target _ link
    rw [file] at link
    cases link

/-- A file that a path denotes is written through the path. -/
theorem writeFile_of_lookup {path : Path} {before : ByteArray}
    (found : tree.lookup true path = .ok (location, .file before)) (content : ByteArray) :
    tree.writeFile path content = .ok (tree.put location (.file content)) := by
  simp only [writeFile, writable, lookup_eq_ok_iff.mp found]

theorem appendFile_of_lookup {path : Path} {before : ByteArray}
    (found : tree.lookup true path = .ok (location, .file before)) (content : ByteArray) :
    tree.appendFile path content = .ok (tree.put location (.file (before ++ content))) := by
  rw [appendFile, found]

theorem put_put (tree : FileTree) (location : Location) (entry last : Entry) :
    (tree.put location entry).put location last = tree.put location last := by
  rw [put, put, put, Table.insert_insert]

/-! ## Names in directories behind links -/

/-- A path leads to a name in a directory, through links or not. -/
structure LeadsThrough (tree : FileTree) (path : Path) (directory : Location) (name : String) :
    Prop where
  isStep : IsStep name
  route : ∃ front, path.segments = front ++ [name] ∧
    tree.Route true linkLimit (start tree.workingDirectory path) front
      (.occupied directory .directory)

/-- A path with a text after its last character leads to a name, when an entry may be put where
it leads. -/
theorem exists_leadsThrough_append {path : Path} {suffix : String} (long : 2 < suffix.length)
    (noSlash : '/' ∉ suffix.toList) (resolved : tree.resolve false (path.append suffix) = .ok place)
    (takes : TakesEntry location place) :
    ∃ directory name, location = directory ++ [name] ∧ Path.IsName name ∧
      tree.LeadsThrough (path.append suffix) directory name := by
  obtain ⟨front, last, segments, longer⟩ := path.segments_append noSlash
  have isName : Path.IsName (last ++ suffix) := by
    refine Path.isName_of_endsWith (Text.endsWith_append last suffix) long ?_
    rw [String.toList_append, List.mem_append, not_or]
    exact ⟨Path.slash_not_mem_segment (segments ▸ List.mem_concat_self), noSlash⟩
  obtain ⟨-, walked⟩ := resolve_eq_ok_iff.mp resolved
  rw [longer] at walked
  obtain ⟨directory, fewer, route, onward⟩ :=
    (route_of_walk walked).split (List.cons_ne_nil _ _) takes.unslashed
  exact ⟨directory, last ++ suffix, onward.place_of_name isName takes, isName,
    onward.isStep isName, front, longer, route⟩

/-- Where a path through a directory leads, a link at its name leads as well. -/
theorem LeadsThrough.of_link {path : Path} {directory : Location} {name : String} {target : Path}
    (leads : tree.LeadsThrough path directory name) (isName : Path.IsName name)
    (link : tree.entry? (directory ++ [name]) = some (.link target))
    (found : tree.lookup true path = .ok (there, entry)) :
    ∃ fewer, tree.Route true fewer (start directory target) target.segments
      (.occupied there entry) := by
  obtain ⟨front, segments, route⟩ := leads.route
  obtain ⟨-, walked⟩ := resolve_eq_ok_iff.mp (lookup_eq_ok_iff.mp found)
  rw [segments] at walked
  obtain ⟨reached, fewer, again, onward⟩ :=
    (route_of_walk walked).split (List.cons_ne_nil _ _) fun _ => ⟨nofun, nofun⟩
  cases route.unique again
  exact onward.of_link isName link

theorem lookup_of_length_zero {path : Path} (empty : tree.length path = .ok 0) :
    ∃ there content, tree.lookup true path = .ok (there, .file content) ∧ content.size = 0 := by
  rw [length] at empty
  split at empty
  next there content found => exact ⟨there, content, found, Except.ok.inj empty⟩
  · cases empty
  · cases empty

/-! ## New files beside a file -/

/-- A file was given a path at which nothing stood, or an empty file was read while the new one is
not empty. -/
structure Given (tree : FileTree) (path : Path) (content : ByteArray) (location : Location)
    (after : FileTree) : Prop where
  put : after = tree.put location (.file content)
  free : ∃ place, tree.resolve false path = .ok place ∧ TakesEntry location place ∧
    (place = .vacant location false ∨ tree.length path = .ok 0 ∧ content.size ≠ 0)

section Given

variable {path other : Path} {suffix : String} {content : ByteArray}

/-- Nothing goes on from where a file is given, but to an empty file. -/
theorem Given.deadEnd (given : tree.Given (path.append suffix) content location after)
    (long : 2 < suffix.length) (noSlash : '/' ∉ suffix.toList)
    (notEmpty : content.size ≠ 0 → ∀ goal emptied, emptied.size = 0 →
      Place.occupied goal (.file emptied) ≠ place) :
    tree.DeadEnd location place := by
  obtain ⟨-, there, resolved, takes, free⟩ := given
  obtain ⟨-, walked⟩ := resolve_eq_ok_iff.mp resolved
  have found := (route_of_walk walked).entry?_eq takes
  constructor
  · rw [found]
    cases takes with
    | occupied noDirectory => exact fun same => noDirectory (Option.some.inj same)
    | free => exact nofun
  · intro base name target same link
    rcases free with rfl | ⟨empty, filled⟩
    · rw [found] at link
      cases link
    · obtain ⟨directory, last, rfl, isName, leads⟩ :=
        exists_leadsThrough_append long noSlash resolved takes
      obtain ⟨rfl, -⟩ := List.append_inj' same rfl
      obtain ⟨goal, emptied, read, none⟩ := lookup_of_length_zero empty
      obtain ⟨fewer, route⟩ := leads.of_link isName link read
      exact ⟨fewer, goal, emptied, route, notEmpty filled goal emptied none⟩

/-- What stood where a file is given was not a file with bytes. -/
theorem Given.ne_of_file (given : tree.Given other content location after)
    {before : ByteArray} (file : tree.entry? there = some (.file before))
    (filled : content.size ≠ 0 → before.size ≠ 0) : there ≠ location := by
  rintro rfl
  obtain ⟨-, place, resolved, takes, free⟩ := given
  obtain ⟨text, walked⟩ := resolve_eq_ok_iff.mp resolved
  have found := (route_of_walk walked).entry?_eq takes
  rw [file] at found
  rcases free with rfl | ⟨empty, bytes⟩
  · cases found
  · cases takes with
    | free => cases found
    | occupied noDirectory =>
        cases found
        obtain ⟨goal, emptied, read, none⟩ := lookup_of_length_zero empty
        have followed := (route_of_walk walked).followed (by simp)
        obtain ⟨-, readWalked⟩ := resolve_eq_ok_iff.mp (lookup_eq_ok_iff.mp read)
        cases followed.unique (route_of_walk readWalked)
        exact filled bytes none

/-- A path still leads to its file when a file was given beside it, with bytes only if the first
one has bytes. -/
theorem Given.lookup_other {before : ByteArray}
    (given : tree.Given (path.append suffix) content location after)
    (long : 2 < suffix.length) (noSlash : '/' ∉ suffix.toList)
    (found : tree.lookup true other = .ok (there, .file before))
    (filled : content.size ≠ 0 → before.size ≠ 0) :
    after.lookup true other = .ok (there, .file before) := by
  have aside := given.ne_of_file (entry?_of_lookup_file found) filled
  rw [given.put]
  refine lookup_put_aside found (given.deadEnd long noSlash ?_) (Or.inr aside) _
  intro bytes goal emptied none same
  cases same
  exact filled bytes none

/-- Before it was given a file, the path led to nothing, or to an empty file. -/
theorem Given.free_or_empty (given : tree.Given path content location after) :
    tree.pathExists path = false ∨ tree.length path = .ok 0 ∧ content.size ≠ 0 := by
  obtain ⟨-, place, resolved, -, free⟩ := given
  apply free.imp_left
  rintro rfl
  obtain ⟨text, walked⟩ := resolve_eq_ok_iff.mp resolved
  have followed := ((route_of_walk walked).followed (by simp)).walk
  have resolvedTrue : tree.resolve true path = .ok (.vacant location false) :=
    resolve_eq_ok_iff.mpr ⟨text, followed⟩
  simp only [pathExists, FileTree.lookup, resolvedTrue]

/-- The path leads to the file that it was given. -/
theorem Given.lookup (given : tree.Given (path.append suffix) content location after)
    (long : 2 < suffix.length) (noSlash : '/' ∉ suffix.toList) :
    after.lookup true (path.append suffix) = .ok (location, .file content) := by
  obtain ⟨place, resolved, takes, -⟩ := given.free
  obtain ⟨directory, name, rfl, isName, leads⟩ :=
    exists_leadsThrough_append long noSlash resolved takes
  have aside : tree.DeadEnd (directory ++ [name]) (.occupied directory .directory) :=
    given.deadEnd long noSlash fun _ _ _ _ => nofun
  obtain ⟨front, segments, route⟩ := leads.route
  have kept := route.put_aside aside (Or.inl rfl) (.file content)
  obtain ⟨text, -⟩ := resolve_eq_ok_iff.mp resolved
  rw [given.put]
  refine lookup_eq_ok_iff.mpr (resolve_eq_ok_iff.mpr ⟨text, ?_⟩)
  rw [segments]
  exact (kept.file_of_directory leads.isStep (entry?_put_self (by simp) _)).walk

end Given

end FileTree

end ChunkPrune
