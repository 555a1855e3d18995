import ChunkPrune.Proofs.FileTree.Leads
import ChunkPrune.Proofs.Path.Cleaned

/-!
# Paths through symbolic links

Two paths denote the same file when they lead to one location. A path with no link on its way
leads where its names say, so two such paths that are cleaned denote the same file only when they
are the same path. A link beside a file is a second path to it.
-/

namespace ChunkPrune.FileTree

/-- Two paths lead to one file. -/
def SameFile (tree : FileTree) (path other : Path) : Prop :=
  ∃ location content, tree.lookup true path = .ok (location, .file content) ∧
    tree.lookup true other = .ok (location, .file content)

/-- A path that tells where it leads: it never goes up, and no link is on its way. -/
structure Direct (tree : FileTree) (path : Path) : Prop where
  noUp : Path.Component.up ∉ path.components
  uncrossed : ¬ tree.Crosses path

variable {tree : FileTree} {path other : Path}

theorem sameFile_self (isFile : tree.isFile path = true) : tree.SameFile path path := by
  obtain ⟨location, content, found⟩ := isFile_iff.mp isFile
  exact ⟨location, content, found, found⟩

/-- Cleaned paths that tell where they lead and start alike denote one file only when they are
the same path. -/
theorem SameFile.clean_eq (same : tree.SameFile path.clean other.clean)
    (start : path.clean.isAbsolute = other.clean.isAbsolute)
    (direct : tree.Direct path.clean) (otherDirect : tree.Direct other.clean) :
    path.clean = other.clean := by
  obtain ⟨location, content, found, otherFound⟩ := same
  have leads : tree.destination path.clean = tree.destination other.clean :=
    (location_of_lookup direct.uncrossed found).symm.trans
      (location_of_lookup otherDirect.uncrossed otherFound)
  rw [destination, destination, FileTree.start, FileTree.start, start] at leads
  rw [Path.isAbsolute_clean, Path.isAbsolute_clean] at start
  exact Path.clean_eq_of_follow start direct.noUp otherDirect.noUp leads

/-- The path of a location crosses no link when none stands at the location or above it. -/
theorem not_crosses_pathOf {names : Location} (proper : ∀ name ∈ names, Path.IsName name)
    (nonempty : names ≠ [])
    (unlinked : ∀ front, front <+: names → ∀ target, tree.entry? front ≠ some (.link target)) :
    ¬ tree.Crosses (pathOf names) := by
  rintro ⟨front, target, stem, link⟩
  rw [start, if_pos (Path.isAbsolute_pathOf names)] at link
  rw [Path.segments_pathOf proper nonempty] at stem
  rcases List.prefix_cons_iff.mp stem with rfl | ⟨rest, rfl, restStem⟩
  · exact unlinked [] List.nil_prefix target link
  · have leads : Path.follow [] ("" :: rest) = rest := by
      rw [Path.follow, if_pos (by decide),
        Path.follow_names fun name member => proper name (restStem.subset member),
        List.nil_append]
    rw [leads] at link
    exact unlinked rest restStem target link

/-! ## A name in an open directory -/

section Names

variable {directory : Location} {name : String} {content : ByteArray}

theorem walk_link {links : Nat} {target : String} (isName : Path.IsName name)
    (fits : name.utf8ByteSize ≤ nameLimit) (targetName : Path.IsName target)
    (link : tree.entry? (directory ++ [name]) = some (.link ⟨target⟩)) :
    tree.walk true (links + 1) directory [name] = tree.walk true links directory [target] := by
  have beside : start directory ⟨target⟩ = directory := by
    rw [start, Path.isAbsolute_name targetName, if_neg Bool.false_ne_true]
  rw [walk, isName.notIdle, if_neg Bool.false_ne_true, if_neg isName.notUp,
    if_neg (Nat.not_lt.mpr fits)]
  simp only [link, List.isEmpty_nil, Bool.not_true, Bool.and_false, Bool.false_eq_true, if_false,
    beside, Path.segments_name targetName, List.append_nil]

theorem resolve_of_accepted (directoryNames : ∀ name ∈ directory, Path.IsName name)
    (isName : Path.IsName name) (opened : tree.Open [] directory)
    (accepted : refusal? directory name = none) (follow : Bool) :
    tree.resolve follow (pathOf (directory ++ [name])) =
      tree.walk follow linkLimit directory [name] := by
  obtain ⟨noNul, short, -⟩ := text_of_refusal? accepted
  rw [resolve_pathOf tree follow directoryNames isName,
    if_neg (by rwa [List.contains_iff_mem]), if_neg (Nat.not_le.mpr short),
    walk_of_open opened directoryNames, List.nil_append]

theorem lookup_file (directoryNames : ∀ name ∈ directory, Path.IsName name)
    (isName : Path.IsName name) (opened : tree.Open [] directory)
    (accepted : refusal? directory name = none)
    (file : tree.entry? (directory ++ [name]) = some (.file content)) :
    tree.lookup true (pathOf (directory ++ [name])) =
      .ok (directory ++ [name], .file content) := by
  have fits := (text_of_refusal? accepted).2.2
  rw [lookup, resolve_of_accepted directoryNames isName opened accepted,
    walk_file isName.notIdle isName.notUp fits file]

/-- A link beside a file leads to the file. -/
theorem lookup_link {target : String} (directoryNames : ∀ name ∈ directory, Path.IsName name)
    (isName : Path.IsName name) (targetName : Path.IsName target)
    (opened : tree.Open [] directory) (accepted : refusal? directory name = none)
    (targetFits : target.utf8ByteSize ≤ nameLimit)
    (link : tree.entry? (directory ++ [name]) = some (.link ⟨target⟩))
    (file : tree.entry? (directory ++ [target]) = some (.file content)) :
    tree.lookup true (pathOf (directory ++ [name])) =
      .ok (directory ++ [target], .file content) := by
  have fits := (text_of_refusal? accepted).2.2
  rw [lookup, resolve_of_accepted directoryNames isName opened accepted, linkLimit,
    walk_link isName fits targetName link,
    walk_file targetName.notIdle targetName.notUp targetFits file]

end Names

end ChunkPrune.FileTree
