import ChunkPrune.FileTree.Access
import ChunkPrune.Proofs.Path.Location

/-!
# Trees without symbolic links

Without links, a path denotes the location that its names lead to, through directories
that are there. A path that reaches a location in this way reaches it for every
operation, so each operation is told by the entry at the location.
-/

namespace ChunkPrune.FileTree

def LinkFree (tree : FileTree) : Prop :=
  ∀ location target, tree.entry? location ≠ some (.link target)

/-- Names lead from a location through directories only. -/
def Open (tree : FileTree) (here : Location) : Location → Prop
  | [] => True
  | name :: rest =>
    name.utf8ByteSize ≤ nameLimit ∧ tree.entry? (here ++ [name]) = some .directory ∧
      Open tree (here ++ [name]) rest

/-- What stands at a location, as a place. -/
def placeAt (tree : FileTree) (location : Location) : Place :=
  match tree.entry? location with
  | some entry => .occupied location entry
  | none => .vacant location false

/-- A path leads to a location, whether links are followed or not. -/
def Reaches (tree : FileTree) (path : Path) (location : Location) : Prop :=
  ∀ follow, tree.resolve follow path = .ok (tree.placeAt location)

/-- Why the path of a location is refused without a look at the tree. -/
def refusal? (directory : Location) (name : String) : Option OsError :=
  let text := (pathOf (directory ++ [name])).text
  if text.toList.contains '\x00' then some .nulInPath
  else if pathBound ≤ text.utf8ByteSize then some .nameTooLong
  else if nameLimit < name.utf8ByteSize then some .nameTooLong
  else none

variable {tree : FileTree}

/-! ## Entries -/

theorem entry?_of_ne_nil (tree : FileTree) {location : Location} (below : location ≠ []) :
    tree.entry? location = tree.entries.get? location := by
  cases location with
  | nil => exact absurd rfl below
  | cons name rest => rfl

theorem entries_get?_put (tree : FileTree) (location other : Location) (entry : Entry) :
    (tree.put location entry).entries.get? other =
      if location = other then some entry else tree.entries.get? other :=
  Table.get?_insert tree.entries location other entry

theorem entries_get?_remove (tree : FileTree) (location other : Location) :
    (tree.remove location).entries.get? other =
      if location = other then none else tree.entries.get? other :=
  Table.get?_erase tree.entries location other

theorem entry?_put_self {location : Location} (below : location ≠ []) (entry : Entry) :
    FileTree.entry? (tree.put location entry) location = some entry := by
  rw [entry?_of_ne_nil _ below, entries_get?_put, if_pos rfl]

theorem entry?_put_of_ne {location other : Location} (different : location ≠ other)
    (entry : Entry) :
    FileTree.entry? (tree.put location entry) other = tree.entry? other := by
  cases other with
  | nil => rfl
  | cons name rest => exact (entries_get?_put tree location _ entry).trans (if_neg different)

theorem entry?_remove_self {location : Location} (below : location ≠ []) :
    FileTree.entry? (tree.remove location) location = none := by
  rw [entry?_of_ne_nil _ below, entries_get?_remove, if_pos rfl]

theorem entry?_remove_of_ne {location other : Location} (different : location ≠ other) :
    FileTree.entry? (tree.remove location) other = tree.entry? other := by
  cases other with
  | nil => rfl
  | cons name rest => exact (entries_get?_remove tree location _).trans (if_neg different)

theorem LinkFree.entry?_cases (linkFree : tree.LinkFree) (location : Location) :
    tree.entry? location = none ∨ tree.entry? location = some .directory ∨
      ∃ content, tree.entry? location = some (.file content) := by
  cases found : tree.entry? location with
  | none => exact Or.inl rfl
  | some entry =>
      cases entry with
      | directory => exact Or.inr (Or.inl rfl)
      | file content => exact Or.inr (Or.inr ⟨content, rfl⟩)
      | link target => exact absurd found (linkFree location target)

theorem placeAt_eq_occupied {location other : Location} {entry : Entry}
    (same : tree.placeAt location = .occupied other entry) :
    other = location ∧ tree.entry? location = some entry := by
  rw [placeAt] at same
  split at same
  next found =>
    cases same
    exact ⟨rfl, found⟩
  · cases same

/-- Two trees with the same entries are equal. -/
theorem ext_entries {left right : FileTree}
    (workingDirectory : left.workingDirectory = right.workingDirectory)
    (entries : ∀ location, left.entries.get? location = right.entries.get? location) :
    left = right := by
  cases left
  cases right
  cases workingDirectory
  cases Table.ext_get? entries
  rfl

/-! ## Looking up -/

section Lookup

variable {path : Path} {follow : Bool}

theorem resolve_eq_ok_iff {place : Place} :
    tree.resolve follow path = .ok place ↔
      (path.text.toList.contains '\x00' = false ∧ path.text ≠ "" ∧
        path.text.utf8ByteSize < pathBound) ∧
      tree.walk follow linkLimit (start tree.workingDirectory path) path.segments =
        .ok place := by
  constructor
  · intro resolved
    rw [resolve] at resolved
    split at resolved
    · cases resolved
    next hasNoNul =>
      split at resolved
      · cases resolved
      next nonempty =>
        split at resolved
        · cases resolved
        next short =>
          exact ⟨⟨Bool.eq_false_iff.mpr hasNoNul, nonempty, Nat.not_le.mp short⟩, resolved⟩
  · rintro ⟨⟨noNul, nonempty, short⟩, walked⟩
    rw [resolve, if_neg (by rw [noNul]; exact Bool.false_ne_true), if_neg nonempty,
      if_neg (Nat.not_le.mpr short), walked]

theorem lookup_eq_ok_iff {location : Location} {entry : Entry} :
    tree.lookup follow path = .ok (location, entry) ↔
      tree.resolve follow path = .ok (.occupied location entry) := by
  rw [lookup]
  constructor
  · intro found
    split at found
    next resolved =>
      cases found
      exact resolved
    · cases found
    · cases found
    · cases found
  · intro resolved
    rw [resolved]

theorem isFile_iff :
    tree.isFile path = true ↔
      ∃ location content, tree.lookup true path = .ok (location, .file content) := by
  rw [isFile]
  constructor
  · intro isFile
    split at isFile
    next location content found => exact ⟨location, content, found⟩
    · cases isFile
  · rintro ⟨location, content, found⟩
    rw [found]

theorem isDirectory_iff :
    tree.isDirectory path = true ↔
      ∃ location, tree.lookup true path = .ok (location, .directory) := by
  rw [isDirectory]
  constructor
  · intro isDirectory
    split at isDirectory
    next location found => exact ⟨location, found⟩
    · cases isDirectory
  · rintro ⟨location, found⟩
    rw [found]

end Lookup

/-! ## Walking -/

theorem Open.left {here left right : Location} (whole : tree.Open here (left ++ right)) :
    tree.Open here left := by
  induction left generalizing here with
  | nil => trivial
  | cons name rest inductionHypothesis =>
      obtain ⟨fits, isDirectory, further⟩ := whole
      exact ⟨fits, isDirectory, inductionHypothesis further⟩

theorem Open.right {here left right : Location} (whole : tree.Open here (left ++ right)) :
    tree.Open (here ++ left) right := by
  induction left generalizing here with
  | nil => simpa using whole
  | cons name rest inductionHypothesis =>
      obtain ⟨-, -, further⟩ := whole
      simpa using inductionHypothesis further

theorem open_append {here left right : Location} :
    tree.Open here (left ++ right) ↔ tree.Open here left ∧ tree.Open (here ++ left) right := by
  refine ⟨fun whole => ⟨whole.left, whole.right⟩, ?_⟩
  induction left generalizing here with
  | nil => simp
  | cons name rest inductionHypothesis =>
      rintro ⟨⟨fits, isDirectory, first⟩, second⟩
      exact ⟨fits, isDirectory, inductionHypothesis ⟨first, by simpa using second⟩⟩

theorem Open.mono {here names : Location} {after : FileTree} (opened : tree.Open here names)
    (kept : ∀ location, tree.entry? location = some .directory →
      after.entry? location = some .directory) : after.Open here names := by
  induction names generalizing here with
  | nil => trivial
  | cons name rest inductionHypothesis =>
      obtain ⟨fits, isDirectory, further⟩ := opened
      exact ⟨fits, kept _ isDirectory, inductionHypothesis further⟩

theorem walk_idle (tree : FileTree) {follow : Bool} {links : Nat} {here : Location}
    {names rest : List String} (idle : ∀ name ∈ names, Path.isIdle name = true) :
    tree.walk follow links here (names ++ rest) = tree.walk follow links here rest := by
  induction names with
  | nil => rfl
  | cons name others inductionHypothesis =>
      rw [List.cons_append, walk, if_pos (idle name List.mem_cons_self)]
      exact inductionHypothesis fun other member => idle other (List.mem_cons_of_mem _ member)

theorem walk_of_open {follow : Bool} {links : Nat} {here names rest : Location}
    (opened : tree.Open here names) (proper : ∀ name ∈ names, Path.IsName name) :
    tree.walk follow links here (names ++ rest) =
      tree.walk follow links (here ++ names) rest := by
  induction names generalizing here with
  | nil => simp
  | cons name others inductionHypothesis =>
      obtain ⟨fits, isDirectory, further⟩ := opened
      have first := proper name List.mem_cons_self
      rw [List.cons_append, walk, first.notIdle, if_neg Bool.false_ne_true,
        if_neg first.notUp, if_neg (Nat.not_lt.mpr fits)]
      simp only [isDirectory]
      rw [inductionHypothesis further fun other member =>
        proper other (List.mem_cons_of_mem _ member)]
      simp

/-- The last name of a path leads to what stands there, unless that is a link to be followed. -/
theorem walk_name {follow : Bool} {links : Nat} {here : Location} {name : String}
    (plain : follow = false ∨ ∀ target, tree.entry? (here ++ [name]) ≠ some (.link target))
    (proper : Path.IsName name) (fits : name.utf8ByteSize ≤ nameLimit) :
    tree.walk follow links here [name] = .ok (tree.placeAt (here ++ [name])) := by
  rw [walk, proper.notIdle, if_neg Bool.false_ne_true, if_neg proper.notUp,
    if_neg (Nat.not_lt.mpr fits), placeAt]
  cases found : tree.entry? (here ++ [name]) with
  | none => simp [found]
  | some entry =>
      cases entry with
      | directory => simp [found, walk]
      | file content => simp [found]
      | link target =>
          rcases plain with rfl | unlinked
          · simp [found]
          · exact absurd found (unlinked target)

theorem walk_last (linkFree : tree.LinkFree) {follow : Bool} {links : Nat} {here : Location}
    {name : String} (proper : Path.IsName name) (fits : name.utf8ByteSize ≤ nameLimit) :
    tree.walk follow links here [name] = .ok (tree.placeAt (here ++ [name])) :=
  walk_name (Or.inr (linkFree _)) proper fits

theorem walk_file {follow : Bool} {links : Nat} {here : Location} {name : String}
    {content : ByteArray} (busy : Path.isIdle name = false) (down : name ≠ "..")
    (fits : name.utf8ByteSize ≤ nameLimit)
    (file : tree.entry? (here ++ [name]) = some (.file content)) :
    tree.walk follow links here [name] = .ok (.occupied (here ++ [name]) (.file content)) := by
  rw [walk, busy, if_neg Bool.false_ne_true, if_neg down, if_neg (Nat.not_lt.mpr fits)]
  simp only [file, List.isEmpty_nil, if_true]

theorem walk_eq_ok (linkFree : tree.LinkFree) {follow : Bool} {links : Nat}
    {here names : Location} {last : String} {place : Place}
    (proper : ∀ name ∈ names, Path.IsName name) (lastProper : Path.IsName last)
    (reached : tree.walk follow links here (names ++ [last]) = .ok place) :
    tree.Open here names ∧ last.utf8ByteSize ≤ nameLimit := by
  induction names generalizing here with
  | nil =>
      rw [List.nil_append, walk, lastProper.notIdle, if_neg Bool.false_ne_true,
        if_neg lastProper.notUp] at reached
      split at reached
      · cases reached
      next fits => exact ⟨trivial, Nat.not_lt.mp fits⟩
  | cons name rest inductionHypothesis =>
      have first := proper name List.mem_cons_self
      have noBlank : (rest ++ [last]).all (· == "") = false := by
        simp [lastProper.ne_empty]
      rw [List.cons_append, walk, first.notIdle, if_neg Bool.false_ne_true,
        if_neg first.notUp] at reached
      split at reached
      · cases reached
      next fits =>
        rcases linkFree.entry?_cases (here ++ [name]) with vacant | isDirectory | ⟨content, found⟩
        · simp [vacant, noBlank] at reached
        · simp only [isDirectory] at reached
          obtain ⟨opened, lastFits⟩ := inductionHypothesis
            (fun other member => proper other (List.mem_cons_of_mem _ member)) reached
          exact ⟨⟨Nat.not_lt.mp fits, isDirectory, opened⟩, lastFits⟩
        · simp [found, noBlank] at reached

/-! ## Resolving the path of a location -/

section Resolve

variable {directory : Location} {name : String}

theorem isName_of_mem_append (directoryNames : ∀ name ∈ directory, Path.IsName name)
    (isName : Path.IsName name) : ∀ other ∈ directory ++ [name], Path.IsName other := by
  intro other member
  rcases List.mem_append.mp member with member | member
  · exact directoryNames other member
  · exact List.mem_singleton.mp member ▸ isName

theorem resolve_pathOf (tree : FileTree) (follow : Bool)
    (directoryNames : ∀ name ∈ directory, Path.IsName name) (isName : Path.IsName name) :
    tree.resolve follow (pathOf (directory ++ [name])) =
      if (pathOf (directory ++ [name])).text.toList.contains '\x00' then .error .nulInPath
      else if pathBound ≤ (pathOf (directory ++ [name])).text.utf8ByteSize then
        .error .nameTooLong
      else tree.walk follow linkLimit [] (directory ++ [name]) := by
  have proper := isName_of_mem_append directoryNames isName
  have absolute := Path.isAbsolute_pathOf (directory ++ [name])
  have blank : Path.isIdle "" = true := by decide
  rw [resolve, start, if_pos absolute, Path.segments_pathOf proper (by simp), walk,
    if_pos blank, if_neg (Path.text_ne_empty absolute)]

theorem resolve_of_open (linkFree : tree.LinkFree) (follow : Bool)
    (directoryNames : ∀ name ∈ directory, Path.IsName name) (isName : Path.IsName name)
    (opened : tree.Open [] directory) :
    tree.resolve follow (pathOf (directory ++ [name])) =
      match refusal? directory name with
      | some cause => .error cause
      | none => .ok (tree.placeAt (directory ++ [name])) := by
  rw [resolve_pathOf tree follow directoryNames isName, refusal?]
  split
  · rfl
  · split
    · rfl
    · rw [walk_of_open opened directoryNames]
      by_cases long : nameLimit < name.utf8ByteSize
      · rw [walk, isName.notIdle, if_neg Bool.false_ne_true, if_neg isName.notUp, if_pos long,
          if_pos long]
      · rw [walk_last linkFree isName (Nat.not_lt.mp long), if_neg long, List.nil_append]

theorem reaches_of_open (linkFree : tree.LinkFree)
    (directoryNames : ∀ name ∈ directory, Path.IsName name) (isName : Path.IsName name)
    (opened : tree.Open [] directory) (accepted : refusal? directory name = none) :
    tree.Reaches (pathOf (directory ++ [name])) (directory ++ [name]) := by
  intro follow
  rw [resolve_of_open linkFree follow directoryNames isName opened, accepted]

/-- A path that is resolved at all leads through directories. -/
theorem open_of_resolve (linkFree : tree.LinkFree) {follow : Bool} {place : Place}
    (directoryNames : ∀ name ∈ directory, Path.IsName name) (isName : Path.IsName name)
    (resolved : tree.resolve follow (pathOf (directory ++ [name])) = .ok place) :
    tree.Open [] directory ∧ refusal? directory name = none := by
  rw [resolve_pathOf tree follow directoryNames isName] at resolved
  split at resolved
  · cases resolved
  next hasNoNul =>
    split at resolved
    · cases resolved
    next short =>
      obtain ⟨opened, fits⟩ := walk_eq_ok linkFree directoryNames isName resolved
      exact ⟨opened, by
        rw [refusal?, if_neg hasNoNul, if_neg short, if_neg (Nat.not_lt.mpr fits)]⟩

end Resolve

/-- A path is refused for its text only when this is no path, or too long a one. -/
theorem refusal?_eq_some {directory : Location} {name : String} {cause : OsError}
    (refused : refusal? directory name = some cause) :
    cause = .nulInPath ∨ cause = .nameTooLong := by
  rw [refusal?] at refused
  split at refused
  · exact Or.inl (Option.some.inj refused).symm
  · split at refused
    · exact Or.inr (Option.some.inj refused).symm
    · split at refused
      · exact Or.inr (Option.some.inj refused).symm
      · cases refused

theorem text_of_refusal? {directory : Location} {name : String}
    (accepted : refusal? directory name = none) :
    '\x00' ∉ (pathOf (directory ++ [name])).text.toList ∧
      (pathOf (directory ++ [name])).text.utf8ByteSize < pathBound ∧
      name.utf8ByteSize ≤ nameLimit := by
  rw [refusal?] at accepted
  split at accepted
  · cases accepted
  next hasNoNul =>
    split at accepted
    · cases accepted
    next short =>
      split at accepted
      · cases accepted
      next fits =>
        rw [List.contains_iff_mem] at hasNoNul
        exact ⟨hasNoNul, Nat.not_le.mp short, Nat.not_lt.mp fits⟩

/-! ## The directory of a file -/

theorem parent?_pathOf {directory : Location} {name : String}
    (directoryNames : ∀ name ∈ directory, Path.IsName name) (isName : Path.IsName name) :
    (pathOf (directory ++ [name])).parent? = some (pathOf directory) := by
  have proper := isName_of_mem_append directoryNames isName
  have absolute := Path.isAbsolute_pathOf (directory ++ [name])
  have kept : directory.reverse.dropWhile Path.isIdle = directory.reverse := by
    cases shape : directory.reverse with
    | nil => rfl
    | cons last rest =>
        have member : last ∈ directory := List.mem_reverse.mp (shape ▸ List.mem_cons_self)
        rw [List.dropWhile_cons_of_neg (by simp [(directoryNames last member).notIdle])]
  rw [Path.parent?, absolute, Path.body_pathOf proper (by simp)]
  simp [isName.notIdle, kept, pathOf]

theorem refusal?_parent {initial : Location} {last name : String}
    (fits : last.utf8ByteSize ≤ nameLimit)
    (accepted : refusal? (initial ++ [last]) name = none) : refusal? initial last = none := by
  have longer : (pathOf (initial ++ [last] ++ [name])).text =
      (pathOf (initial ++ [last])).text ++ ("/" ++ name) := by
    rw [pathOf, pathOf, Path.slashed, Path.slashed,
      String.intercalate_append_of_ne_nil (by simp) (by simp), String.intercalate_singleton,
      String.append_assoc, String.append_assoc]
  obtain ⟨noNul, short, -⟩ := text_of_refusal? accepted
  rw [longer, String.utf8ByteSize_append] at short
  rw [longer, String.toList_append, List.mem_append, not_or] at noNul
  rw [refusal?, if_neg, if_neg, if_neg (Nat.not_lt.mpr fits)]
  · omega
  · rw [List.contains_iff_mem]
    exact noNul.1

theorem Open.last_fits {here initial : Location} {last : String}
    (opened : tree.Open here (initial ++ [last])) :
    tree.Open here initial ∧ last.utf8ByteSize ≤ nameLimit ∧
      tree.entry? (here ++ initial ++ [last]) = some .directory := by
  obtain ⟨fits, isDirectory, -⟩ := opened.right
  exact ⟨opened.left, fits, isDirectory⟩

theorem lookup_directory {directory : Location} {name : String}
    (directoryNames : ∀ name ∈ directory, Path.IsName name) (opened : tree.Open [] directory)
    (accepted : refusal? directory name = none) :
    tree.lookup true (pathOf directory) = .ok (directory, .directory) := by
  rcases List.eq_nil_or_concat directory with rfl | ⟨initial, last, rfl⟩
  · have resolved : tree.resolve true (pathOf []) = .ok (.occupied [] .directory) := by
      have absolute := Path.isAbsolute_pathOf []
      have idle : ∀ segment ∈ (pathOf []).segments, Path.isIdle segment = true := by decide
      rw [resolve, start, if_pos absolute, if_neg (by decide), if_neg (by decide),
        if_neg (by decide), ← List.append_nil (pathOf []).segments, walk_idle tree idle, walk]
    rw [lookup, resolved]
  · rw [List.concat_eq_append] at *
    obtain ⟨-, fits, -⟩ := opened.last_fits
    obtain ⟨noNul, short, -⟩ := text_of_refusal? (refusal?_parent fits accepted)
    have walked : tree.walk true linkLimit [] (initial ++ [last] ++ []) =
        .ok (.occupied (initial ++ [last]) .directory) := by
      rw [walk_of_open opened directoryNames, walk, List.nil_append]
    rw [List.append_nil] at walked
    rw [lookup, resolve_pathOf tree true
      (fun other member => directoryNames other (List.mem_append_left _ member))
      (directoryNames last (by simp)), if_neg (by rwa [List.contains_iff_mem]),
      if_neg (Nat.not_le.mpr short), walked]

end ChunkPrune.FileTree
