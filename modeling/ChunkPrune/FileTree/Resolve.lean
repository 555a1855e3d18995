import ChunkPrune.FileTree.Basic

/-!
# What a path denotes on disk

A path is followed name by name from the top or from the working directory. A
symbolic link on the way is replaced by its target; two points lead to the directory
that contains the one reached, wherever the path came from.
-/

namespace ChunkPrune

/-- What a path leads to: an entry, a file with a slash after its name, as only a
directory may have it, or a free place in a directory, with a slash or without. -/
inductive Place where
  | occupied (location : Location) (entry : Entry)
  | slashed (location : Location)
  | vacant (location : Location) (slash : Bool)
  deriving DecidableEq

namespace FileTree

/-- The number of links that one path may pass. -/
def linkLimit : Nat := 40

/-- The number of bytes that a name may have. -/
def nameLimit : Nat := 255

/-- The number of bytes that no path may have. -/
def pathBound : Nat := 4096

/-- Where the names of a path start from. -/
def start (here : Location) (path : Path) : Location :=
  if path.isAbsolute then [] else here

/-- Follow names from a directory. A link in the last place is followed when asked
for, and always when a slash comes after it. -/
def walk (tree : FileTree) (follow : Bool) (links : Nat) (here : Location)
    (names : List String) : Except OsError Place :=
  match names with
  | [] => .ok (.occupied here .directory)
  | name :: rest =>
    if Path.isIdle name then walk tree follow links here rest
    else if name = ".." then walk tree follow links here.dropLast rest
    else if nameLimit < name.utf8ByteSize then .error .nameTooLong
    else
      let next := here ++ [name]
      match tree.entry? next with
      | none =>
        if rest.all (· == "") then .ok (.vacant next !rest.isEmpty) else .error .notFound
      | some .directory => walk tree follow links next rest
      | some (.file content) =>
        if rest.isEmpty then .ok (.occupied next (.file content))
        else if rest.all (· == "") then .ok (.slashed next)
        else .error .notDirectory
      | some (.link target) =>
        if rest.isEmpty && !follow then .ok (.occupied next (.link target))
        else
          match links with
          | 0 => .error .tooManyLinks
          | links + 1 => walk tree follow links (start here target) (target.segments ++ rest)
termination_by (links, names.length)

def resolve (tree : FileTree) (follow : Bool) (path : Path) : Except OsError Place :=
  if path.text.toList.contains '\x00' then .error .nulInPath
  else if path.text = "" then .error .notFound
  else if pathBound ≤ path.text.utf8ByteSize then .error .nameTooLong
  else walk tree follow linkLimit (start tree.workingDirectory path) path.segments

def lookup (tree : FileTree) (follow : Bool) (path : Path) :
    Except OsError (Location × Entry) :=
  match tree.resolve follow path with
  | .ok (.occupied location entry) => .ok (location, entry)
  | .ok (.slashed _) => .error .notDirectory
  | .ok (.vacant _ _) => .error .notFound
  | .error e => .error e

/-- A regular file, reached through links or not. -/
def isFile (tree : FileTree) (path : Path) : Bool :=
  match tree.lookup true path with
  | .ok (_, .file _) => true
  | _ => false

/-- A directory, reached through links or not. -/
def isDirectory (tree : FileTree) (path : Path) : Bool :=
  match tree.lookup true path with
  | .ok (_, .directory) => true
  | _ => false

/-- Anything at all, reached through links or not. -/
def pathExists (tree : FileTree) (path : Path) : Bool :=
  match tree.lookup true path with
  | .ok _ => true
  | .error _ => false

/-- The absolute path of a location. -/
def pathOf (location : Location) : Path := ⟨"/" ++ Path.slashed location⟩

/-- The absolute path without links to what a path denotes. -/
def canonical? (tree : FileTree) (path : Path) : Option Path :=
  match tree.lookup true path with
  | .ok (location, _) => some (pathOf location)
  | .error _ => none

end FileTree

end ChunkPrune
