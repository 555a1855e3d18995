import ChunkPrune.Path
import ChunkPrune.Table

/-!
# File trees

A file tree says what stands at each location: a directory, a file or a symbolic
link. A location is the list of names from the top; the top itself is a directory.
-/

namespace ChunkPrune

/-- The names from the top of the tree down to a place. -/
abbrev Location := List String

/-- Contents are the same when they have the same bytes. -/
instance (priority := 2000) decidableEqContent : DecidableEq ByteArray :=
  ByteArray.instDecidableEq

/-- What stands at a location. -/
inductive Entry where
  | directory
  | file (content : ByteArray)
  | link (target : Path)
  deriving DecidableEq

/-- Entries by their location, and the directory where relative paths start. -/
structure FileTree where
  entries : Table Location Entry
  workingDirectory : Location

inductive OsError where
  | notFound
  | alreadyExists
  | notDirectory
  | isDirectory
  | nameTooLong
  | directoryNotEmpty
  | tooManyLinks
  | nulInPath
  deriving DecidableEq, Repr

def OsError.message : OsError → String
  | notFound => "No such file or directory (os error 2)"
  | alreadyExists => "File exists (os error 17)"
  | notDirectory => "Not a directory (os error 20)"
  | isDirectory => "Is a directory (os error 21)"
  | nameTooLong => "File name too long (os error 36)"
  | directoryNotEmpty => "Directory not empty (os error 39)"
  | tooManyLinks => "Too many levels of symbolic links (os error 40)"
  | nulInPath => "file name contained an unexpected NUL byte"

namespace FileTree

def empty : FileTree := ⟨Table.empty, []⟩

instance : Inhabited FileTree := ⟨empty⟩

def entry? (tree : FileTree) : Location → Option Entry
  | [] => some .directory
  | location => tree.entries.get? location

def put (tree : FileTree) (location : Location) (entry : Entry) : FileTree :=
  { tree with entries := tree.entries.insert location entry }

def remove (tree : FileTree) (location : Location) : FileTree :=
  { tree with entries := tree.entries.erase location }

/-- The tree without a location and everything below it. -/
def prune (tree : FileTree) (location : Location) : FileTree :=
  { tree with entries := tree.entries.filter fun other _ => !location.isPrefixOf other }

/-- The entries below a location, each with the names that lead to it from there. -/
def below (tree : FileTree) (location : Location) : List (Location × Entry) :=
  tree.entries.entries.filterMap fun (other, entry) =>
    match location.isPrefixOf? other with
    | some (name :: rest) => some (name :: rest, entry)
    | _ => none

/-- Every entry stands in a directory. -/
def WellFormed (tree : FileTree) : Prop :=
  ∀ location entry, tree.entry? location = some entry →
    tree.entry? location.dropLast = some .directory

end FileTree

end ChunkPrune
