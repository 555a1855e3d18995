import ChunkPrune.Proofs.FileTree.Spelled

/-!
# Paths that lead to a name in a directory

With no link on its way a path leads to one location, however it is spelled: relative or not,
with points in it or without. In a tree without links, a path that reads a file leads through
directories to a name, and with a text after its last character it leads to the longer name in
the same directory.
-/

namespace ChunkPrune

def Place.location : Place → Location
  | .occupied location _ => location
  | .slashed location => location
  | .vacant location _ => location

namespace Path

/-- Why a path that leads to a name is refused without a look at the tree. -/
def refusal? (path : Path) (name : String) : Option OsError :=
  if path.text.toList.contains '\x00' then some .nulInPath
  else if FileTree.pathBound ≤ path.text.utf8ByteSize then some .nameTooLong
  else if FileTree.nameLimit < name.utf8ByteSize then some .nameTooLong
  else none

theorem refusal?_eq_none_iff {path : Path} {name : String} :
    path.refusal? name = none ↔ '\x00' ∉ path.text.toList ∧
      path.text.utf8ByteSize < FileTree.pathBound ∧ name.utf8ByteSize ≤ FileTree.nameLimit := by
  rw [refusal?]
  split
  next hasNul => simp [List.contains_iff_mem.mp hasNul]
  next noNul =>
    rw [List.contains_iff_mem] at noNul
    split
    next long => simp [Nat.not_lt.mpr long]
    next short =>
      split
      next longName => simp [Nat.not_le.mpr longName]
      next fits => simp [noNul, Nat.not_le.mp short, Nat.not_lt.mp fits]

/-- When a path with a text after it is accepted, so is the path. -/
theorem refusal?_of_append {path longer : Path} {name suffix : String}
    (text : longer.text = path.text ++ suffix)
    (accepted : longer.refusal? (name ++ suffix) = none) : path.refusal? name = none := by
  obtain ⟨noNul, short, fits⟩ := refusal?_eq_none_iff.mp accepted
  rw [text, String.toList_append, List.mem_append, not_or] at noNul
  rw [text, String.utf8ByteSize_append] at short
  rw [String.utf8ByteSize_append] at fits
  exact refusal?_eq_none_iff.mpr ⟨noNul.1, by omega, by omega⟩

/-- A text without slashes after a path is a text after its last segment. -/
theorem segments_append (path : Path) {suffix : String} (noSlash : '/' ∉ suffix.toList) :
    ∃ front last, path.segments = front ++ [last] ∧
      (path.append suffix).segments = front ++ [last ++ suffix] := by
  obtain ⟨initial, last, shape, longer⟩ := splitOn_append_of_not_mem noSlash path.text.toList
  refine ⟨initial.map String.ofList, String.ofList last, ?_, ?_⟩
  · rw [segments, shape, List.map_append, List.map_singleton]
  · have ending : String.ofList (last ++ suffix.toList) = String.ofList last ++ suffix := by
      apply String.toList_inj.mp
      rw [String.toList_append, String.toList_ofList, String.toList_ofList]
    rw [segments, append, String.toList_append, longer, List.map_append, List.map_singleton,
      ending]

end Path

namespace FileTree

variable {tree : FileTree} {path : Path} {directory : Location} {name : String}

/-- A path that is resolved has not been refused for its text. -/
theorem refusal?_of_resolve {follow : Bool} {place : Place}
    (resolved : tree.resolve follow path = .ok place) (fits : name.utf8ByteSize ≤ nameLimit) :
    path.refusal? name = none := by
  obtain ⟨⟨noNul, -, short⟩, -⟩ := resolve_eq_ok_iff.mp resolved
  refine Path.refusal?_eq_none_iff.mpr ⟨fun member => ?_, short, fits⟩
  exact Bool.eq_false_iff.mp noNul (List.contains_iff_mem.mpr member)

/-- Where a path leads to when no link is on the way. -/
def destination (tree : FileTree) (path : Path) : Location :=
  Path.follow (start tree.workingDirectory path) path.segments

theorem destination_of_isAbsolute (tree : FileTree) (absolute : path.isAbsolute = true) :
    tree.destination path = path.location := by
  rw [destination, start, if_pos absolute, Path.location]

/-- A link stands somewhere on the way of a path. -/
def Crosses (tree : FileTree) (path : Path) : Prop :=
  ∃ front target, front <+: path.segments ∧
    tree.entry? (Path.follow (start tree.workingDirectory path) front) = some (.link target)

theorem LinkFree.not_crosses (linkFree : tree.LinkFree) (path : Path) : ¬ tree.Crosses path :=
  fun ⟨_, target, _, link⟩ => linkFree _ target link

theorem location_placeAt (tree : FileTree) (location : Location) :
    (tree.placeAt location).location = location := by
  rw [placeAt]
  split
  · rfl
  · rfl

/-- Names with no link on their way lead where they say. -/
theorem walk_location {follow : Bool} {links : Nat} {here : Location} {names : List String}
    {place : Place}
    (unlinked : ∀ front, front <+: names → ∀ target,
      tree.entry? (Path.follow here front) ≠ some (.link target))
    (reached : tree.walk follow links here names = .ok place) :
    place.location = Path.follow here names := by
  induction names generalizing here with
  | nil =>
      rw [walk] at reached
      cases reached
      rfl
  | cons name rest inductionHypothesis =>
      have next := unlinked [name] (List.cons_prefix_cons.mpr ⟨rfl, List.nil_prefix⟩)
      have split : Path.follow here (name :: rest) = Path.follow (Path.follow here [name]) rest :=
        Path.follow_append here [name] rest
      rw [split]
      cases goes_of_walk next reached with
      | on passes further =>
          refine inductionHypothesis (fun front stem target => ?_) further
          rw [← Path.follow_append]
          exact unlinked (name :: front) (List.cons_prefix_cons.mpr ⟨rfl, stem⟩) target
      | last leads busy down fits noDirectory isLast same =>
          rw [same, isLast, leads, location_placeAt, Path.follow]
      | slash leads blank same =>
          have idle : ∀ segment ∈ rest, Path.isIdle segment = true := by
            intro segment member
            rw [Path.isIdle, List.all_eq_true.mp blank segment member, Bool.true_or]
          rw [leads, Path.follow_idle idle]
          rcases same with rfl | rfl
          · rfl
          · rfl

theorem location_of_resolve (uncrossed : ¬ tree.Crosses path) {follow : Bool} {place : Place}
    (resolved : tree.resolve follow path = .ok place) :
    place.location = tree.destination path :=
  walk_location (fun front stem target link => uncrossed ⟨front, target, stem, link⟩)
    (resolve_eq_ok_iff.mp resolved).2

theorem location_of_lookup (uncrossed : ¬ tree.Crosses path) {follow : Bool}
    {location : Location} {entry : Entry}
    (found : tree.lookup follow path = .ok (location, entry)) :
    location = tree.destination path :=
  location_of_resolve uncrossed (lookup_eq_ok_iff.mp found)

/-- A file is written where its path leads to, and nowhere else. -/
theorem eq_put_of_writeFile (linkFree : tree.LinkFree) {content : ByteArray} {after : FileTree}
    (written : tree.writeFile path content = .ok after) :
    after = tree.put (tree.destination path) (.file content) := by
  rw [writeFile, writable] at written
  cases resolved : tree.resolve true path with
  | error cause => simp [resolved] at written
  | ok place =>
      rw [← location_of_resolve (linkFree.not_crosses path) resolved]
      cases place with
      | slashed location => simp [resolved] at written
      | occupied location entry =>
          cases entry with
          | directory => simp [resolved] at written
          | link target => simp [resolved] at written
          | file before =>
              simp only [resolved] at written
              cases written
              rfl
      | vacant location slash =>
          cases slash with
          | true => simp [resolved] at written
          | false =>
              simp only [resolved] at written
              cases written
              rfl

/-! ## Names in directories -/

/-- A path leads through directories to a name in the last of them. -/
structure Leads (tree : FileTree) (path : Path) (directory : Location) (name : String) :
    Prop where
  isName : Path.IsName name
  passes : ∃ front, path.segments = front ++ [name] ∧
    tree.Passes (start tree.workingDirectory path) front directory

namespace Leads

theorem text_ne_empty (leads : tree.Leads path directory name) : path.text ≠ "" := by
  intro empty
  obtain ⟨front, segments, -⟩ := leads.passes
  have single : path.segments = [""] := by
    rw [Path.segments, empty]
    decide
  rw [single] at segments
  have last := congrArg List.getLast? segments
  rw [List.getLast?_concat] at last
  exact leads.isName.ne_empty (Option.some.inj last).symm

theorem resolve (leads : tree.Leads path directory name) (linkFree : tree.LinkFree)
    (follow : Bool) :
    tree.resolve follow path =
      match path.refusal? name with
      | some cause => .error cause
      | none => .ok (tree.placeAt (directory ++ [name])) := by
  obtain ⟨front, segments, passes⟩ := leads.passes
  rw [FileTree.resolve, if_neg leads.text_ne_empty, Path.refusal?, segments,
    walk_of_passes passes]
  split
  · rfl
  · split
    · rfl
    · by_cases long : nameLimit < name.utf8ByteSize
      · rw [walk, leads.isName.notIdle, if_neg Bool.false_ne_true, if_neg leads.isName.notUp,
          if_pos long, if_pos long]
      · rw [walk_last linkFree leads.isName (Nat.not_lt.mp long), if_neg long]

theorem reaches (leads : tree.Leads path directory name) (linkFree : tree.LinkFree)
    (accepted : path.refusal? name = none) : tree.Reaches path (directory ++ [name]) := by
  intro follow
  rw [leads.resolve linkFree, accepted]

theorem resolve_of_refused (leads : tree.Leads path directory name) (linkFree : tree.LinkFree)
    {cause : OsError} (refused : path.refusal? name = some cause) (follow : Bool) :
    tree.resolve follow path = .error cause := by
  rw [leads.resolve linkFree, refused]

theorem append (leads : tree.Leads path directory name) {suffix : String}
    (long : 2 < suffix.length) (noSlash : '/' ∉ suffix.toList) :
    tree.Leads (path.append suffix) directory (name ++ suffix) := by
  obtain ⟨front, segments, passes⟩ := leads.passes
  obtain ⟨front', last, segments', longer⟩ := path.segments_append noSlash
  obtain ⟨rfl, same⟩ := List.append_inj' (segments.symm.trans segments') rfl
  obtain rfl := (List.cons.inj same).1
  refine ⟨?_, front, longer, ?_⟩
  · refine Path.isName_of_endsWith (Text.endsWith_append name suffix) long ?_
    rw [String.toList_append, List.mem_append, not_or]
    exact ⟨leads.isName.noSlash, noSlash⟩
  · rw [start, Path.isAbsolute_append leads.text_ne_empty]
    exact passes

theorem evolves (leads : tree.Leads path directory name) {places : Location → Prop}
    {after : FileTree} (evolves : tree.Evolves places after) :
    after.Leads path directory name := by
  obtain ⟨front, segments, passes⟩ := leads.passes
  refine ⟨leads.isName, front, segments, ?_⟩
  rw [evolves.workingDirectory]
  exact passes.mono fun _ found => evolves.directory found

end Leads

/-- A walk that ends at a file has led through directories to its name. -/
theorem exists_passes_of_walk (linkFree : tree.LinkFree) {follow : Bool} {links : Nat}
    {here location : Location} {names : List String} {content : ByteArray}
    (noSlash : ∀ name ∈ names, '/' ∉ name.toList)
    (reached : tree.walk follow links here names = .ok (.occupied location (.file content))) :
    ∃ front name directory, names = front ++ [name] ∧ Path.IsName name ∧
      tree.Passes here front directory ∧ location = directory ++ [name] := by
  induction names generalizing here with
  | nil =>
      rw [walk] at reached
      cases reached
  | cons segment rest inductionHypothesis =>
      obtain ⟨first, others⟩ := List.forall_mem_cons.mp noSlash
      cases goes_of_walk (linkFree _) reached with
      | on passes further =>
          obtain ⟨front, name, directory, rfl, isName, furtherPasses, same⟩ :=
            inductionHypothesis others further
          have whole : tree.Passes here ([segment] ++ front) directory :=
            passes_append.mpr ⟨_, passes, furtherPasses⟩
          exact ⟨segment :: front, name, directory, rfl, isName, whole, same⟩
      | last leads busy down fits noDirectory isLast same =>
          rw [isLast]
          exact ⟨[], segment, here, rfl, ⟨busy, down, first⟩, rfl,
            (placeAt_eq_occupied same.symm).1⟩
      | slash leads blank same =>
          rcases same with same | same
          · cases same
          · cases same

/-- A path that denotes a file leads to its name, and reaches it. -/
theorem exists_leads (linkFree : tree.LinkFree) {follow : Bool} {location : Location}
    {content : ByteArray} (found : tree.lookup follow path = .ok (location, .file content)) :
    ∃ directory name, tree.Leads path directory name ∧ path.refusal? name = none ∧
      location = directory ++ [name] ∧ tree.entry? location = some (.file content) := by
  have resolved := lookup_eq_ok_iff.mp found
  obtain ⟨front, name, directory, segments, isName, passes, rfl⟩ :=
    exists_passes_of_walk linkFree (fun _ member => Path.slash_not_mem_segment member)
      (resolve_eq_ok_iff.mp resolved).2
  have leads : tree.Leads path directory name := ⟨isName, front, segments, passes⟩
  rw [leads.resolve linkFree] at resolved
  split at resolved
  · cases resolved
  next accepted =>
    exact ⟨directory, name, leads, accepted, rfl,
      (placeAt_eq_occupied (Except.ok.inj resolved)).2⟩

/-- A path with a text denotes a file with the bytes of the text. -/
theorem lookup_of_readText {text : String} (read : tree.readText path = .ok text) :
    ∃ location, tree.lookup true path = .ok (location, .file text.toUTF8) := by
  rw [readText, readBytes] at read
  cases found : tree.lookup true path with
  | error cause => simp [found] at read
  | ok pair =>
      obtain ⟨location, entry⟩ := pair
      cases entry with
      | directory => simp [found] at read
      | link target => simp [found] at read
      | file content =>
          simp only [found] at read
          split at read
          next decoded =>
            cases read
            rw [Text.fromUTF8?_eq_some_iff.mp decoded]
            exact ⟨location, rfl⟩
          · cases read

theorem isFile_of_readText {text : String} (read : tree.readText path = .ok text) :
    tree.isFile path = true := by
  obtain ⟨location, found⟩ := lookup_of_readText read
  exact isFile_iff.mpr ⟨location, _, found⟩

end FileTree

end ChunkPrune
