import ChunkPrune.Proofs.FileTree.Leads
import ChunkPrune.Proofs.FileTree.Route

/-!
# Trees as they are on a disk

On a disk every entry has a proper name and stands in a directory, and the working directory is
there. Links may stand anywhere. A route to a directory leads there already in the tree before a
change, when the change made no directory and no link; so a change that writes files cannot lead
a path to another directory.
-/

namespace ChunkPrune.FileTree

/-- A name that an entry may have. -/
structure EntryName (name : String) : Prop where
  isName : Path.IsName name
  fits : name.utf8ByteSize ≤ nameLimit

theorem IsStep.entryName {name : String} (isStep : IsStep name) (noSlash : '/' ∉ name.toList) :
    EntryName name :=
  ⟨⟨isStep.busy, isStep.down, noSlash⟩, isStep.fits⟩

structure OnDisk (tree : FileTree) : Prop where
  wellFormed : tree.WellFormed
  names : ∀ location entry, tree.entry? location = some entry → ∀ name ∈ location, EntryName name
  workingDirectory : tree.entry? tree.workingDirectory = some .directory

variable {tree after : FileTree} {follow : Bool} {links : Nat} {here location : Location}
  {names : List String} {place : Place}

/-- A directory on a disk is reached through directories. -/
theorem OnDisk.opened (onDisk : tree.OnDisk)
    (isDirectory : tree.entry? location = some .directory) : tree.Open [] location := by
  induction location using List.reverseRecOn with
  | nil => trivial
  | append_singleton parent name inductionHypothesis =>
      have above := onDisk.wellFormed _ _ isDirectory
      rw [List.dropLast_concat] at above
      have proper := onDisk.names _ _ isDirectory name (by simp)
      exact open_append.mpr
        ⟨inductionHypothesis above, proper.fits, by simpa using isDirectory, trivial⟩

/-! ## Where routes end -/

/-- An entry may be put at a place: no directory stands there. -/
inductive TakesEntry (location : Location) : Place → Prop
  | occupied {entry : Entry} (noDirectory : entry ≠ .directory) :
      TakesEntry location (.occupied location entry)
  | free : TakesEntry location (.vacant location false)

theorem TakesFile.takesEntry (takes : TakesFile location place) : TakesEntry location place := by
  cases takes with
  | file content => exact .occupied (by simp)
  | free => exact .free

theorem isDirectory_start (path : Path)
    (startsAt : tree.entry? here = some .directory) :
    tree.entry? (start here path) = some .directory := by
  rw [start]
  split
  · rfl
  · exact startsAt

/-- A route from a directory that ends at a directory ends at one of the tree. -/
theorem Route.isDirectory {links : Nat} {here : Location} {names : List String}
    (route : tree.Route follow links here names (.occupied location .directory))
    (onDisk : tree.OnDisk) (startsAt : tree.entry? here = some .directory) :
    tree.entry? location = some .directory := by
  generalize reached : Place.occupied location .directory = place at route
  induction route with
  | stay =>
      cases reached
      exact startsAt
  | idle idle further inductionHypothesis => exact inductionHypothesis startsAt reached
  | up further inductionHypothesis =>
      exact inductionHypothesis (onDisk.wellFormed _ _ startsAt) reached
  | enter isStep directory further inductionHypothesis =>
      exact inductionHypothesis directory reached
  | free isStep vacant blank => cases reached
  | file isStep file => cases reached
  | slash isStep file more blank => cases reached
  | link isStep link unfollowed => cases reached
  | @through links here name rest target place isStep link followed further
      inductionHypothesis =>
      exact inductionHypothesis (isDirectory_start target startsAt) reached

theorem OnDisk.isDirectory_of_lookup (onDisk : tree.OnDisk) {path : Path}
    (found : tree.lookup follow path = .ok (location, .directory)) :
    tree.entry? location = some .directory := by
  obtain ⟨-, walked⟩ := resolve_eq_ok_iff.mp (lookup_eq_ok_iff.mp found)
  exact (route_of_walk walked).isDirectory onDisk (isDirectory_start path onDisk.workingDirectory)

/-- A route from a directory that ends where an entry may be put ends at a name in a directory,
where no directory stands. -/
theorem Route.exists_name (route : tree.Route follow links here names place)
    (onDisk : tree.OnDisk) (startsAt : tree.entry? here = some .directory)
    (noSlash : ∀ name ∈ names, '/' ∉ name.toList) (takes : TakesEntry location place) :
    ∃ directory name, location = directory ++ [name] ∧
      tree.entry? directory = some .directory ∧ EntryName name ∧
      tree.entry? location ≠ some .directory := by
  induction route with
  | stay =>
      cases takes with
      | occupied noDirectory => exact absurd rfl noDirectory
  | idle idle further inductionHypothesis =>
      exact inductionHypothesis startsAt (List.forall_mem_cons.mp noSlash).2 takes
  | up further inductionHypothesis =>
      exact inductionHypothesis (onDisk.wellFormed _ _ startsAt)
        (List.forall_mem_cons.mp noSlash).2 takes
  | enter isStep directory further inductionHypothesis =>
      exact inductionHypothesis directory (List.forall_mem_cons.mp noSlash).2 takes
  | @free links here name rest isStep vacant blank =>
      cases rest with
      | cons other others => cases takes
      | nil =>
          cases takes
          exact ⟨here, name, rfl, startsAt,
            isStep.entryName (noSlash name List.mem_cons_self), by simp [vacant]⟩
  | @file links here name content isStep file =>
      cases takes
      exact ⟨here, name, rfl, startsAt,
        isStep.entryName (noSlash name List.mem_cons_self), by simp [file]⟩
  | slash isStep file more blank => cases takes
  | @link links here name target isStep link unfollowed =>
      cases takes
      exact ⟨here, name, rfl, startsAt,
        isStep.entryName (noSlash name List.mem_cons_self), by simp [link]⟩
  | @through links here name rest target place isStep link followed further
      inductionHypothesis =>
      refine inductionHypothesis (isDirectory_start target startsAt) ?_ takes
      intro segment member
      rcases List.mem_append.mp member with member | member
      · exact Path.slash_not_mem_segment member
      · exact noSlash segment (List.mem_cons_of_mem _ member)

/-- A route splits where more names follow, if it does not end with slashes: the names in front
lead to a directory, and the rest goes on from there. -/
theorem Route.split {front rest : List String}
    (route : tree.Route follow links here (front ++ rest) place) (more : rest ≠ [])
    (unslashed : ∀ there, place ≠ .slashed there ∧ place ≠ .vacant there true) :
    ∃ directory fewer, tree.Route true links here front (.occupied directory .directory) ∧
      tree.Route follow fewer directory rest place := by
  generalize whole : front ++ rest = names at route
  induction route generalizing front with
  | stay => exact absurd (List.append_eq_nil_iff.mp whole).2 more
  | @idle links here name others place idle further inductionHypothesis =>
      cases front with
      | nil =>
          obtain rfl := whole
          exact ⟨here, links, .stay, .idle idle further⟩
      | cons first front =>
          obtain ⟨rfl, shape⟩ := List.cons.inj whole
          obtain ⟨directory, fewer, route, onward⟩ := inductionHypothesis unslashed shape
          exact ⟨directory, fewer, .idle idle route, onward⟩
  | @up links here others place further inductionHypothesis =>
      cases front with
      | nil =>
          obtain rfl := whole
          exact ⟨here, links, .stay, .up further⟩
      | cons first front =>
          obtain ⟨rfl, shape⟩ := List.cons.inj whole
          obtain ⟨directory, fewer, route, onward⟩ := inductionHypothesis unslashed shape
          exact ⟨directory, fewer, .up route, onward⟩
  | @enter links here name others place isStep isDirectory further inductionHypothesis =>
      cases front with
      | nil =>
          obtain rfl := whole
          exact ⟨here, links, .stay, .enter isStep isDirectory further⟩
      | cons first front =>
          obtain ⟨rfl, shape⟩ := List.cons.inj whole
          obtain ⟨directory, fewer, route, onward⟩ := inductionHypothesis unslashed shape
          exact ⟨directory, fewer, .enter isStep isDirectory route, onward⟩
  | @free links here name others isStep vacant blank =>
      cases front with
      | nil =>
          obtain rfl := whole
          exact ⟨here, links, .stay, .free isStep vacant blank⟩
      | cons first front =>
          obtain ⟨rfl, rfl⟩ := List.cons.inj whole
          have further : (!(front ++ rest).isEmpty) = true := by simp [more]
          exact absurd (congrArg (Place.vacant _) further) (unslashed _).2
  | @file links here name content isStep file =>
      cases front with
      | nil =>
          obtain rfl := whole
          exact ⟨here, links, .stay, .file isStep file⟩
      | cons first front =>
          exact absurd (List.append_eq_nil_iff.mp (List.cons.inj whole).2).2 more
  | slash isStep file notLast blank => exact absurd rfl (unslashed _).1
  | @link links here name target isStep link unfollowed =>
      cases front with
      | nil =>
          obtain rfl := whole
          exact ⟨here, links, .stay, .link isStep link unfollowed⟩
      | cons first front =>
          exact absurd (List.append_eq_nil_iff.mp (List.cons.inj whole).2).2 more
  | @through links here name others target place isStep link followed further
      inductionHypothesis =>
      cases front with
      | nil =>
          obtain rfl := whole
          exact ⟨here, links + 1, .stay, .through isStep link followed further⟩
      | cons first front =>
          obtain ⟨rfl, rfl⟩ := List.cons.inj whole
          -- the target stands before the names that are left of the front
          obtain ⟨directory, fewer, route, onward⟩ :=
            inductionHypothesis unslashed (List.append_assoc _ _ _)
          exact ⟨directory, fewer, .through isStep link (Or.inl rfl) route, onward⟩

theorem TakesEntry.unslashed (takes : TakesEntry location place) (there : Location) :
    place ≠ .slashed there ∧ place ≠ .vacant there true := by
  cases takes with
  | occupied noDirectory => exact ⟨nofun, nofun⟩
  | free => exact ⟨nofun, nofun⟩

/-- A single name that is not followed leads to its place in the directory. -/
theorem Route.place_of_name {name : String} (route : tree.Route false links here [name] place)
    (isName : Path.IsName name) (takes : TakesEntry location place) :
    location = here ++ [name] := by
  cases route with
  | idle idle further =>
      rw [isName.notIdle] at idle
      cases idle
  | up further => exact absurd rfl isName.notUp
  | enter isStep isDirectory further =>
      cases further
      cases takes with
      | occupied noDirectory => exact absurd rfl noDirectory
  | free isStep vacant blank =>
      cases takes
      rfl
  | file isStep file =>
      cases takes
      rfl
  | slash isStep file more blank => exact absurd rfl more
  | link isStep link unfollowed =>
      cases takes
      rfl
  | through isStep link followed further =>
      rcases followed with unfollowed | more
      · cases unfollowed
      · exact absurd rfl more

theorem exists_text_pathOf (directory : Location) (name : String) :
    ∃ rest, (pathOf (directory ++ [name])).text = (pathOf directory).text ++ rest := by
  rcases List.eq_nil_or_concat directory with rfl | ⟨initial, last, rfl⟩
  · exact ⟨name, by simp [pathOf, Path.slashed]⟩
  · refine ⟨"/" ++ name, ?_⟩
    rw [List.concat_eq_append, pathOf, pathOf, Path.slashed, Path.slashed,
      String.intercalate_append_of_ne_nil (by simp) (by simp), String.intercalate_singleton,
      String.append_assoc, String.append_assoc]

theorem walk_pathOf {names : Location} (proper : ∀ name ∈ names, Path.IsName name) :
    tree.walk follow links here (pathOf names).segments = tree.walk follow links here names := by
  cases names with
  | nil =>
      have idle : ∀ segment ∈ (pathOf []).segments, Path.isIdle segment = true := by decide
      rw [← List.append_nil (pathOf []).segments, walk_idle tree idle]
  | cons name rest =>
      have blank : Path.isIdle "" = true := by decide
      rw [Path.segments_pathOf proper (List.cons_ne_nil _ _), walk, if_pos blank]

/-- Where an entry may be put at the path of a location, the directory of this location leads to
a directory, and the place is there. -/
theorem exists_directory_of_resolve {directory : Location} {name : String}
    (directoryNames : ∀ name ∈ directory, Path.IsName name) (isName : Path.IsName name)
    (resolved : tree.resolve false (pathOf (directory ++ [name])) = .ok place)
    (takes : TakesEntry location place) :
    ∃ there, tree.lookup true (pathOf directory) = .ok (there, .directory) ∧
      location = there ++ [name] := by
  obtain ⟨⟨noNul, -, short⟩, walked⟩ := resolve_eq_ok_iff.mp resolved
  rw [start, if_pos (Path.isAbsolute_pathOf _),
    walk_pathOf (isName_of_mem_append directoryNames isName)] at walked
  obtain ⟨there, fewer, route, last⟩ :=
    (route_of_walk walked).split (List.cons_ne_nil _ _) takes.unslashed
  obtain ⟨rest, longer⟩ := exists_text_pathOf directory name
  have absolute := Path.isAbsolute_pathOf directory
  have directoryNoNul : (pathOf directory).text.toList.contains '\x00' = false := by
    rw [longer, String.toList_append, List.contains_append, Bool.or_eq_false_iff] at noNul
    exact noNul.1
  have directoryShort : (pathOf directory).text.utf8ByteSize < pathBound := by
    rw [longer, String.utf8ByteSize_append] at short
    exact Nat.lt_of_le_of_lt (Nat.le_add_right _ _) short
  refine ⟨there, lookup_eq_ok_iff.mpr ?_, last.place_of_name isName takes⟩
  rw [resolve_of_isAbsolute tree true absolute directoryNoNul directoryShort,
    walk_pathOf directoryNames]
  exact route.walk

/-! ## Tracing routes back -/

/-- On the way to a directory every part of the names leads to a directory. -/
theorem Route.exists_front {left right : List String}
    (route : tree.Route true links here (left ++ right) (.occupied location .directory)) :
    ∃ directory, tree.Route true links here left (.occupied directory .directory) := by
  by_cases whole : right = []
  · rw [whole, List.append_nil] at route
    exact ⟨location, route⟩
  · obtain ⟨directory, fewer, front, -⟩ := route.split whole fun _ => ⟨nofun, nofun⟩
    exact ⟨directory, front⟩

/-- A route to a directory after a change was one before, when no directory is new; or a link
that the change has moved leads to a directory. -/
theorem Route.back {moved : Location → Path → Prop}
    (directories : ∀ location, after.entry? location = some .directory →
      tree.entry? location = some .directory)
    (linked : ∀ here name target, after.entry? (here ++ [name]) = some (.link target) →
      tree.entry? (here ++ [name]) = some (.link target) ∨ moved here target)
    (route : after.Route true links here names (.occupied location .directory)) :
    tree.Route true links here names (.occupied location .directory) ∨
      ∃ base target links directory, moved base target ∧
        tree.Route true links (start base target) target.segments
          (.occupied directory .directory) := by
  generalize reached : Place.occupied location .directory = place at route
  induction route with
  | stay =>
      cases reached
      exact Or.inl .stay
  | idle idle further inductionHypothesis =>
      exact (inductionHypothesis reached).imp_left (.idle idle)
  | up further inductionHypothesis => exact (inductionHypothesis reached).imp_left .up
  | enter isStep isDirectory further inductionHypothesis =>
      exact (inductionHypothesis reached).imp_left (.enter isStep (directories _ isDirectory))
  | free isStep vacant blank => cases reached
  | file isStep file => cases reached
  | slash isStep file more blank => cases reached
  | link isStep link unfollowed => cases reached
  | @through links here name rest target place isStep link followed further
      inductionHypothesis =>
      rcases inductionHypothesis reached with before | other
      · rcases linked here name target link with unmoved | moved
        · exact Or.inl (.through isStep unmoved followed before)
        · rw [← reached] at before
          obtain ⟨directory, leads⟩ := before.exists_front
          exact Or.inr ⟨here, target, links, directory, moved, leads⟩
      · exact Or.inr other

/-- Files that were written do not lead names to another directory. -/
theorem Route.of_evolves {places : Location → Prop} (evolves : tree.Evolves places after)
    (route : after.Route true links here names (.occupied location .directory)) :
    tree.Route true links here names (.occupied location .directory) := by
  have unchanged : ∀ {location : Location} {entry : Entry}, (∀ content, entry ≠ .file content) →
      after.entry? location = some entry → tree.entry? location = some entry := by
    intro location entry noFile found
    rcases evolves.entry?_cases location with same | ⟨-, -, content, written⟩
    · exact same.symm.trans found
    · rw [written] at found
      exact absurd (Option.some.inj found).symm (noFile content)
  have linked : ∀ here name target, after.entry? (here ++ [name]) = some (.link target) →
      tree.entry? (here ++ [name]) = some (.link target) ∨ False :=
    fun _ _ _ link => Or.inl (unchanged (by simp) link)
  rcases route.back (fun _ => unchanged (by simp)) linked with before | ⟨_, _, _, _, no, _⟩
  · exact before
  · exact absurd no not_false

/-- Where names lead to a place for a file after files were written, one was written there, or
they have led to this place before. -/
theorem Route.file_of_evolves {places : Location → Prop} (evolves : tree.Evolves places after)
    (route : after.Route true links here names place) (takes : TakesFile location place) :
    places location ∨ ∃ before, tree.Route true links here names before ∧
      TakesFile location before := by
  induction route with
  | stay => cases takes
  | idle idle further inductionHypothesis =>
      rcases inductionHypothesis takes with written | ⟨before, route, takes⟩
      · exact Or.inl written
      · exact Or.inr ⟨before, .idle idle route, takes⟩
  | up further inductionHypothesis =>
      rcases inductionHypothesis takes with written | ⟨before, route, takes⟩
      · exact Or.inl written
      · exact Or.inr ⟨before, .up route, takes⟩
  | @enter links here name rest place isStep isDirectory further inductionHypothesis =>
      rcases inductionHypothesis takes with written | ⟨before, route, takes⟩
      · exact Or.inl written
      · rcases evolves.entry?_cases (here ++ [name]) with same | ⟨-, -, content, file⟩
        · exact Or.inr ⟨before, .enter isStep (same.symm.trans isDirectory) route, takes⟩
        · rw [file] at isDirectory
          cases isDirectory
  | @free links here name rest isStep vacant blank =>
      rcases evolves.entry?_cases (here ++ [name]) with same | ⟨-, -, content, file⟩
      · exact Or.inr ⟨_, .free isStep (same.symm.trans vacant) blank, takes⟩
      · rw [file] at vacant
        cases vacant
  | @file links here name content isStep file =>
      cases takes
      rcases evolves.entry?_cases (here ++ [name]) with same | ⟨written, -, -⟩
      · exact Or.inr ⟨_, .file isStep (same.symm.trans file), .file content⟩
      · exact Or.inl written
  | slash isStep file more blank => cases takes
  | link isStep link unfollowed => cases takes
  | @through links here name rest target place isStep link followed further
      inductionHypothesis =>
      rcases inductionHypothesis takes with written | ⟨before, route, takes⟩
      · exact Or.inl written
      · rcases evolves.entry?_cases (here ++ [name]) with same | ⟨-, -, content, file⟩
        · exact Or.inr ⟨before, .through isStep (same.symm.trans link) followed route, takes⟩
        · rw [file] at link
          cases link

/-- A path to a directory after files were written led there before. -/
theorem Evolves.lookup_directory {places : Location → Prop} (evolves : tree.Evolves places after)
    {path : Path} (found : after.lookup true path = .ok (location, .directory)) :
    tree.lookup true path = .ok (location, .directory) := by
  obtain ⟨text, walked⟩ := resolve_eq_ok_iff.mp (lookup_eq_ok_iff.mp found)
  rw [evolves.workingDirectory] at walked
  have before := ((route_of_walk walked).of_evolves evolves).walk
  exact lookup_eq_ok_iff.mpr (resolve_eq_ok_iff.mpr ⟨text, before⟩)

/-! ## Routes with more links allowed -/

theorem Route.mono {more : Nat} (route : tree.Route follow links here names place)
    (within : links ≤ more) : tree.Route follow more here names place := by
  induction route generalizing more with
  | stay => exact .stay
  | idle idle further inductionHypothesis => exact .idle idle (inductionHypothesis within)
  | up further inductionHypothesis => exact .up (inductionHypothesis within)
  | enter isStep isDirectory further inductionHypothesis =>
      exact .enter isStep isDirectory (inductionHypothesis within)
  | free isStep vacant blank => exact .free isStep vacant blank
  | file isStep file => exact .file isStep file
  | slash isStep file notLast blank => exact .slash isStep file notLast blank
  | link isStep link unfollowed => exact .link isStep link unfollowed
  | through isStep link followed further inductionHypothesis =>
      cases more with
      | zero => exact absurd within (Nat.not_succ_le_zero _)
      | succ more =>
          exact .through isStep link followed (inductionHypothesis (Nat.le_of_succ_le_succ within))

/-- Names lead to one place only, however many links are allowed. -/
theorem Route.unique {other : Nat} {place' : Place}
    (route : tree.Route follow links here names place)
    (route' : tree.Route follow other here names place') : place = place' := by
  rcases Nat.le_total links other with within | within
  · exact Except.ok.inj ((route.mono within).walk.symm.trans route'.walk)
  · exact Except.ok.inj (route.walk.symm.trans (route'.mono within).walk)

/-- A route that ends at a link goes on with its target. -/
theorem Route.of_link {name : String} {target : Path}
    (route : tree.Route true links here [name] place) (isName : Path.IsName name)
    (link : tree.entry? (here ++ [name]) = some (.link target)) :
    ∃ fewer, tree.Route true fewer (start here target) target.segments place := by
  cases route with
  | idle idle further =>
      rw [isName.notIdle] at idle
      cases idle
  | up further => exact absurd rfl isName.notUp
  | enter isStep directory further =>
      rw [link] at directory
      cases directory
  | free isStep vacant blank =>
      rw [link] at vacant
      cases vacant
  | file isStep file =>
      rw [link] at file
      cases file
  | slash isStep file more blank => exact absurd rfl more
  | link isStep link unfollowed => cases unfollowed
  | through isStep found followed further =>
      rw [link] at found
      cases found
      rw [List.append_nil] at further
      exact ⟨_, further⟩

/-! ## Changes on a disk -/

theorem OnDisk.parent (onDisk : tree.OnDisk) {directory : Location} {name : String}
    {entry : Entry} (found : tree.entry? (directory ++ [name]) = some entry) :
    tree.entry? directory = some .directory ∧ EntryName name := by
  have above := onDisk.wellFormed _ _ found
  rw [List.dropLast_concat] at above
  exact ⟨above, onDisk.names _ _ found name (by simp)⟩

/-- An entry with a proper name was put into a directory, where no directory was. -/
theorem OnDisk.put (onDisk : tree.OnDisk) {directory : Location} {name : String} {entry : Entry}
    (startsAt : tree.entry? directory = some .directory) (proper : EntryName name)
    (noDirectory : tree.entry? (directory ++ [name]) ≠ some .directory) :
    (tree.put (directory ++ [name]) entry).OnDisk := by
  have kept : ∀ {location : Location}, tree.entry? location = some .directory →
      FileTree.entry? (tree.put (directory ++ [name]) entry) location = some .directory := by
    intro location isDirectory
    have different : directory ++ [name] ≠ location := fun same =>
      noDirectory (same ▸ isDirectory)
    rw [entry?_put_of_ne different, isDirectory]
  refine ⟨?_, ?_, kept onDisk.workingDirectory⟩
  · intro location found there
    apply kept
    by_cases same : directory ++ [name] = location
    · rw [← same, List.dropLast_concat]
      exact startsAt
    · rw [entry?_put_of_ne same] at there
      exact onDisk.wellFormed _ _ there
  · intro location found there
    by_cases same : directory ++ [name] = location
    · rw [← same]
      intro other member
      rcases List.mem_append.mp member with member | member
      · exact onDisk.names _ _ startsAt other member
      · exact List.mem_singleton.mp member ▸ proper
    · rw [entry?_put_of_ne same] at there
      exact onDisk.names _ _ there

/-- A file was put where a path leads. -/
theorem OnDisk.put_file (onDisk : tree.OnDisk) {path : Path}
    (resolved : tree.resolve follow path = .ok place) (takes : TakesEntry location place)
    (content : ByteArray) :
    (tree.put location (.file content)).OnDisk ∧ ∀ {places : Location → Prop},
      places location → tree.Evolves places (tree.put location (.file content)) := by
  obtain ⟨-, walked⟩ := resolve_eq_ok_iff.mp resolved
  obtain ⟨directory, name, rfl, isDirectory, proper, noDirectory⟩ :=
    (route_of_walk walked).exists_name onDisk (isDirectory_start path onDisk.workingDirectory)
      (fun _ => Path.slash_not_mem_segment) takes
  exact ⟨onDisk.put isDirectory proper noDirectory,
    fun place => .put (by simp) place noDirectory content⟩

theorem exists_place_of_placeNew {path : Path} {content : ByteArray}
    (placed : tree.placeNew path content = .ok after) :
    ∃ place location, tree.resolve false path = .ok place ∧ TakesEntry location place ∧
      after = tree.put location (.file content) := by
  rw [placeNew] at placed
  split at placed
  next location slash resolved =>
    cases slash with
    | true => cases placed
    | false =>
        cases placed
        exact ⟨_, location, resolved, .free, rfl⟩
  · cases placed
  · cases placed
  · cases placed

theorem exists_place_of_replaceAt {path : Path} {entry : Entry}
    (replaced : tree.replaceAt path entry = .ok after) :
    ∃ place location, tree.resolve false path = .ok place ∧ TakesEntry location place ∧
      after = tree.put location entry := by
  rw [replaceAt] at replaced
  split at replaced
  next location slash resolved =>
    cases slash with
    | true => cases replaced
    | false =>
        cases replaced
        exact ⟨_, location, resolved, .free, rfl⟩
  · cases replaced
  next location other noDirectory resolved =>
    cases replaced
    exact ⟨_, location, resolved, .occupied noDirectory, rfl⟩
  · cases replaced
  · cases replaced

theorem exists_place_of_writeFile {path : Path} {content : ByteArray}
    (written : tree.writeFile path content = .ok after) :
    ∃ place location, tree.resolve true path = .ok place ∧ TakesFile location place ∧
      after = tree.put location (.file content) := by
  rw [writeFile] at written
  split at written
  next location writable =>
    cases written
    obtain ⟨place, resolved, takes⟩ := writable_eq_ok writable
    exact ⟨place, location, resolved, takes, rfl⟩
  · cases written

theorem exists_place_of_appendFile {path : Path} {piece : ByteArray}
    (written : tree.appendFile path piece = .ok after) :
    ∃ place location content, tree.resolve true path = .ok place ∧ TakesFile location place ∧
      after = tree.put location (.file content) := by
  rw [appendFile] at written
  split at written
  next location before found =>
    cases written
    exact ⟨_, location, _, lookup_eq_ok_iff.mp found, .file before, rfl⟩
  · cases written
  · cases written

/-! ## Entering directories -/

/-- A directory that a path leads to with no link on the way is entered. -/
theorem enters_of_uncrossed {directory : Path} (absolute : directory.isAbsolute = true)
    (uncrossed : ¬ tree.Crosses directory) (isDirectory : tree.isDirectory directory = true) :
    tree.Enters directory := by
  obtain ⟨there, found⟩ := isDirectory_iff.mp isDirectory
  obtain ⟨⟨noNul, -, short⟩, walked⟩ := resolve_eq_ok_iff.mp (lookup_eq_ok_iff.mp found)
  have unlinked : ∀ front, front <+: directory.segments → ∀ target,
      tree.entry? (Path.follow (start tree.workingDirectory directory) front) ≠
        some (.link target) :=
    fun front stem target link => uncrossed ⟨front, target, stem, link⟩
  have passes := passes_of_unlinked unlinked walked
  rw [start, if_pos absolute] at passes
  have same : there = directory.location := passes.eq_follow
  exact ⟨absolute, noNul, short, same ▸ passes⟩

end ChunkPrune.FileTree
