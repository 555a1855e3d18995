import ChunkPrune.Proofs.FileTree.Evolves

/-!
# Routes through symbolic links

A route says how names lead from a location to a place: past idle names, up, into directories
and through links. A path is resolved to a place exactly when there is a route to it, so what
a change to the tree does to a path is told by an induction over its route.
-/

namespace ChunkPrune.FileTree

/-- A name that is looked up in the directory reached. -/
structure IsStep (name : String) : Prop where
  busy : Path.isIdle name = false
  down : name ≠ ".."
  fits : name.utf8ByteSize ≤ nameLimit

/-- The names lead from a location to a place, through no more links than allowed. -/
inductive Route (tree : FileTree) (follow : Bool) :
    Nat → Location → List String → Place → Prop
  | stay {links : Nat} {here : Location} :
      Route tree follow links here [] (.occupied here .directory)
  | idle {links : Nat} {here : Location} {name : String} {rest : List String} {place : Place}
      (idle : Path.isIdle name = true) (further : Route tree follow links here rest place) :
      Route tree follow links here (name :: rest) place
  | up {links : Nat} {here : Location} {rest : List String} {place : Place}
      (further : Route tree follow links here.dropLast rest place) :
      Route tree follow links here (".." :: rest) place
  | enter {links : Nat} {here : Location} {name : String} {rest : List String} {place : Place}
      (isStep : IsStep name) (directory : tree.entry? (here ++ [name]) = some .directory)
      (further : Route tree follow links (here ++ [name]) rest place) :
      Route tree follow links here (name :: rest) place
  | free {links : Nat} {here : Location} {name : String} {rest : List String}
      (isStep : IsStep name) (vacant : tree.entry? (here ++ [name]) = none)
      (blank : rest.all (· == "") = true) :
      Route tree follow links here (name :: rest) (.vacant (here ++ [name]) !rest.isEmpty)
  | file {links : Nat} {here : Location} {name : String} {content : ByteArray}
      (isStep : IsStep name) (file : tree.entry? (here ++ [name]) = some (.file content)) :
      Route tree follow links here [name] (.occupied (here ++ [name]) (.file content))
  | slash {links : Nat} {here : Location} {name : String} {rest : List String}
      {content : ByteArray} (isStep : IsStep name)
      (file : tree.entry? (here ++ [name]) = some (.file content)) (more : rest ≠ [])
      (blank : rest.all (· == "") = true) :
      Route tree follow links here (name :: rest) (.slashed (here ++ [name]))
  | link {links : Nat} {here : Location} {name : String} {target : Path}
      (isStep : IsStep name) (link : tree.entry? (here ++ [name]) = some (.link target))
      (unfollowed : follow = false) :
      Route tree follow links here [name] (.occupied (here ++ [name]) (.link target))
  | through {links : Nat} {here : Location} {name : String} {rest : List String}
      {target : Path} {place : Place} (isStep : IsStep name)
      (link : tree.entry? (here ++ [name]) = some (.link target))
      (followed : follow = true ∨ rest ≠ [])
      (further : Route tree follow links (start here target) (target.segments ++ rest) place) :
      Route tree follow (links + 1) here (name :: rest) place

variable {tree after : FileTree} {follow : Bool} {links : Nat} {here location : Location}
  {names : List String} {place : Place} {content : ByteArray}

theorem route_of_walk (reached : tree.walk follow links here names = .ok place) :
    tree.Route follow links here names place := by
  fun_induction FileTree.walk tree follow links here names with
  | case1 links here =>
      cases reached
      exact .stay
  | case2 links here name rest idle inductionHypothesis =>
      exact .idle idle (inductionHypothesis reached)
  | case3 links here rest busy inductionHypothesis =>
      exact .up (inductionHypothesis reached)
  | case4 => cases reached
  | case5 links here name rest busy down fits next vacant blank =>
      cases reached
      exact .free ⟨Bool.eq_false_iff.mpr busy, down, Nat.not_lt.mp fits⟩ vacant blank
  | case6 => cases reached
  | case7 links here name rest busy down fits next directory inductionHypothesis =>
      exact .enter ⟨Bool.eq_false_iff.mpr busy, down, Nat.not_lt.mp fits⟩ directory
        (inductionHypothesis reached)
  | case8 links here name rest busy down fits next content file last =>
      cases reached
      obtain rfl := List.isEmpty_iff.mp last
      exact .file ⟨Bool.eq_false_iff.mpr busy, down, Nat.not_lt.mp fits⟩ file
  | case9 links here name rest busy down fits next content file more blank =>
      cases reached
      exact .slash ⟨Bool.eq_false_iff.mpr busy, down, Nat.not_lt.mp fits⟩ file
        (fun last => more (List.isEmpty_iff.mpr last)) blank
  | case10 => cases reached
  | case11 links here name rest busy down fits next target link last =>
      cases reached
      rw [Bool.and_eq_true, Bool.not_eq_true'] at last
      obtain rfl := List.isEmpty_iff.mp last.1
      exact .link ⟨Bool.eq_false_iff.mpr busy, down, Nat.not_lt.mp fits⟩ link last.2
  | case12 => cases reached
  | case13 here name rest busy down fits next target link more links inductionHypothesis =>
      refine .through ⟨Bool.eq_false_iff.mpr busy, down, Nat.not_lt.mp fits⟩ link ?_
        (inductionHypothesis reached)
      by_cases last : rest = []
      · subst last
        exact Or.inl (by simpa using more)
      · exact Or.inr last

theorem Route.walk (route : tree.Route follow links here names place) :
    tree.walk follow links here names = .ok place := by
  induction route with
  | stay => rw [FileTree.walk]
  | idle idle further inductionHypothesis =>
      rw [FileTree.walk, if_pos idle, inductionHypothesis]
  | up further inductionHypothesis =>
      rw [FileTree.walk, if_neg (by decide), if_pos rfl, inductionHypothesis]
  | enter isStep directory further inductionHypothesis =>
      rw [FileTree.walk, isStep.busy, if_neg Bool.false_ne_true, if_neg isStep.down,
        if_neg (Nat.not_lt.mpr isStep.fits)]
      simp only [directory, inductionHypothesis]
  | free isStep vacant blank =>
      rw [FileTree.walk, isStep.busy, if_neg Bool.false_ne_true, if_neg isStep.down,
        if_neg (Nat.not_lt.mpr isStep.fits)]
      simp only [vacant, blank, if_true]
  | file isStep file =>
      rw [FileTree.walk, isStep.busy, if_neg Bool.false_ne_true, if_neg isStep.down,
        if_neg (Nat.not_lt.mpr isStep.fits)]
      simp only [file, List.isEmpty_nil, if_true]
  | slash isStep file more blank =>
      rw [FileTree.walk, isStep.busy, if_neg Bool.false_ne_true, if_neg isStep.down,
        if_neg (Nat.not_lt.mpr isStep.fits)]
      have notLast := mt List.isEmpty_iff.mp more
      simp only [file, notLast, blank, Bool.false_eq_true, if_false, if_true]
  | link isStep link unfollowed =>
      rw [FileTree.walk, isStep.busy, if_neg Bool.false_ne_true, if_neg isStep.down,
        if_neg (Nat.not_lt.mpr isStep.fits)]
      simp only [link, unfollowed, List.isEmpty_nil, Bool.not_false, Bool.and_self, if_true]
  | @through links here name rest target place isStep link followed further inductionHypothesis =>
      rw [FileTree.walk, isStep.busy, if_neg Bool.false_ne_true, if_neg isStep.down,
        if_neg (Nat.not_lt.mpr isStep.fits)]
      have goesOn : (rest.isEmpty && !follow) = false := by
        rcases followed with rfl | more
        · rw [Bool.not_true, Bool.and_false]
        · rw [Bool.eq_false_iff.mpr (mt List.isEmpty_iff.mp more), Bool.false_and]
      simp only [link, goesOn, Bool.false_eq_true, if_false, inductionHypothesis]

/-! ## Writing and reading -/

/-- A file may be written at a place: one is there already, or the place is free. -/
inductive TakesFile (location : Location) : Place → Prop
  | file (content : ByteArray) : TakesFile location (.occupied location (.file content))
  | free : TakesFile location (.vacant location false)

/-- Where a file may be written, neither a directory nor a link stands. -/
theorem Route.plain (route : tree.Route follow links here names place)
    (takes : TakesFile location place) :
    location ≠ [] ∧ tree.entry? location ≠ some .directory ∧
      ∀ target, tree.entry? location ≠ some (.link target) := by
  induction route with
  | stay => cases takes
  | idle idle further inductionHypothesis => exact inductionHypothesis takes
  | up further inductionHypothesis => exact inductionHypothesis takes
  | enter isStep directory further inductionHypothesis => exact inductionHypothesis takes
  | @free links here name rest isStep vacant blank =>
      cases rest with
      | cons other others => cases takes
      | nil =>
          cases takes
          simp [vacant]
  | file isStep file =>
      cases takes
      simp [file]
  | slash isStep file more blank => cases takes
  | link isStep link unfollowed => cases takes
  | through isStep link followed further inductionHypothesis => exact inductionHypothesis takes

/-- After a file was written at the place of a route, the names lead to the file. -/
theorem Route.put (route : tree.Route follow links here names place)
    (takes : TakesFile location place) (content : ByteArray) :
    (tree.put location (.file content)).Route follow links here names
      (.occupied location (.file content)) := by
  obtain ⟨below, noDirectory, noLink⟩ := route.plain takes
  induction route with
  | stay => cases takes
  | idle idle further inductionHypothesis => exact .idle idle (inductionHypothesis takes)
  | up further inductionHypothesis => exact .up (inductionHypothesis takes)
  | @enter links here name rest place isStep directory further inductionHypothesis =>
      have elsewhere : location ≠ here ++ [name] := fun same => noDirectory (same ▸ directory)
      exact .enter isStep ((entry?_put_of_ne elsewhere _).trans directory)
        (inductionHypothesis takes)
  | @free links here name rest isStep vacant blank =>
      cases rest with
      | cons other others => cases takes
      | nil =>
          cases takes
          exact .file isStep (entry?_put_self below _)
  | file isStep file =>
      cases takes
      exact .file isStep (entry?_put_self below _)
  | slash isStep file more blank => cases takes
  | link isStep link unfollowed => cases takes
  | @through links here name rest target place isStep link followed further
      inductionHypothesis =>
      have elsewhere : location ≠ here ++ [name] := fun same => noLink target (same ▸ link)
      exact .through isStep ((entry?_put_of_ne elsewhere _).trans link) followed
        (inductionHypothesis takes)

theorem writable_eq_ok {path : Path} (writable : tree.writable path = .ok location) :
    ∃ place, tree.resolve true path = .ok place ∧ TakesFile location place := by
  rw [FileTree.writable] at writable
  split at writable
  next other content resolved =>
    cases writable
    exact ⟨_, resolved, .file content⟩
  · cases writable
  · cases writable
  next other slash resolved =>
    cases slash with
    | true => cases writable
    | false =>
        cases writable
        exact ⟨_, resolved, .free⟩
  · cases writable

theorem lookup_put {path : Path} (resolved : tree.resolve follow path = .ok place)
    (takes : TakesFile location place) (content : ByteArray) :
    (tree.put location (.file content)).lookup follow path = .ok (location, .file content) := by
  obtain ⟨text, walked⟩ := resolve_eq_ok_iff.mp resolved
  have reached := ((route_of_walk walked).put takes content).walk
  exact lookup_eq_ok_iff.mpr (resolve_eq_ok_iff.mpr ⟨text, reached⟩)

/-- A path at which a file was written is that of a file with the content, whatever links it
goes through. -/
theorem lookup_of_writeFile {path : Path} (written : tree.writeFile path content = .ok after) :
    ∃ location, after.lookup true path = .ok (location, .file content) := by
  rw [writeFile] at written
  split at written
  next location writable =>
    cases written
    obtain ⟨place, resolved, takes⟩ := writable_eq_ok writable
    exact ⟨location, lookup_put resolved takes content⟩
  · cases written

theorem readText_of_writeFile {path : Path} {text : String}
    (written : tree.writeFile path text.toUTF8 = .ok after) :
    after.readText path = .ok text := by
  obtain ⟨location, found⟩ := lookup_of_writeFile written
  rw [readText, readBytes, found]
  simp only [Text.fromUTF8?_eq_some_iff.mpr rfl]

end ChunkPrune.FileTree
