import ChunkPrune.FileTree.Access

/-!
# Trees and the disk

What a run may look at is read from the disk into a tree, and what the run changed in
the tree is written back. The changes themselves are a matter of the two trees alone.
-/

namespace ChunkPrune

inductive Change where
  | remove (location : Location)
  | move (source target : Location)
  | write (location : Location) (content : ByteArray)
  deriving DecidableEq

namespace FileTree

/-- Where a link stood that has been moved away. -/
def originOf? (tree after : FileTree) (moved : Entry) : Option Location :=
  (tree.entries.entries.find? fun (location, entry) =>
    entry = moved && after.entry? location ≠ some entry).map (·.1)

def moves (tree after : FileTree) : List (Location × Location) :=
  after.entries.entries.filterMap fun (location, entry) =>
    match entry with
    | .link _ =>
      if tree.entry? location = some entry then none
      else (originOf? tree after entry).map fun source => (source, location)
    | _ => none

/-- The changes that make one tree out of another. What gives way to a new entry is
removed before, so that nothing is written through a link. -/
def changes (tree after : FileTree) : List Change :=
  let moved := moves tree after
  let removed := tree.entries.entries.filterMap fun (location, entry) =>
    if entry = .directory || after.entry? location = some entry
      || moved.any (·.1 = location) then none
    else some (Change.remove location)
  let written := after.entries.entries.filterMap fun (location, entry) =>
    match entry with
    | .file content =>
      if tree.entry? location = some entry then none
      else some (Change.write location content)
    | _ => none
  removed ++ moved.map (fun (source, target) => .move source target) ++ written

end FileTree

namespace Disk

/-- A name in a directory. -/
def item (directory : Location) (name : String) : IO.FS.DirEntry :=
  ⟨(FileTree.pathOf directory).text, name⟩

/-- What a directory has under a name, if anything. A link is kept as one to the place
that it leads to in the end, and one that leads nowhere as a link to itself. -/
def readEntry? (item : IO.FS.DirEntry) : IO (Option Entry) := do
  let .ok found ← item.path.symlinkMetadata.toBaseIO | return none
  match found.type with
  | .dir => return some .directory
  | .symlink =>
    match ← (IO.FS.realPath item.path).toBaseIO with
    | .ok target => return some (.link ⟨target.toString⟩)
    | .error _ => return some (.link ⟨item.path.toString⟩)
  | .file => return some (.file (← IO.FS.readBinFile item.path))
  | .other => return some (.file .empty)

/-- The location that an absolute path names. -/
def locationOf (path : Path) : Location := path.segments.filter fun name => !Path.isIdle name

mutual

/-- Add what stands on the way that names lead from a directory. At the end of the way,
a directory is added with all below it when it is asked for. -/
partial def addWay (deep : Bool) (tree : FileTree) (here : Location) :
    List String → IO FileTree
  | [] => if deep then addBelow tree here else return tree
  | name :: rest => do
    if Path.isIdle name then addWay deep tree here rest
    else if name = ".." then addWay deep tree here.dropLast rest
    else
      let next := here ++ [name]
      match ← readEntry? (item here name) with
      | none => return tree
      | some .directory => addWay deep (tree.plant next .directory) next rest
      | some (.file content) => return tree.plant next (.file content)
      | some (.link target) =>
        let tree := tree.plant next (.link target)
        if locationOf target = next then return tree
        else addWay deep tree [] (target.segments ++ rest)

/-- Add everything below a directory, and what links in it lead to. -/
partial def addBelow (tree : FileTree) (here : Location) : IO FileTree := do
  (← (item here ".").path.readDir).foldlM (fun tree found => do
    let next := here ++ [found.fileName]
    match ← readEntry? found with
    | none => return tree
    | some .directory => addBelow (tree.plant next .directory) next
    | some (.file content) => return tree.plant next (.file content)
    | some (.link target) =>
      let tree := tree.plant next (.link target)
      if (tree.entry? (locationOf target)).isSome then return tree
      else addWay true tree [] target.segments) tree

end

/-- Add what a path leads to. -/
def add (deep : Bool) (tree : FileTree) (path : Path) : IO FileTree :=
  addWay deep tree (FileTree.start tree.workingDirectory path) path.segments

def make : Change → IO Unit
  | .remove location => IO.FS.removeFile (FileTree.pathOf location).text
  | .move source target =>
    IO.FS.rename (FileTree.pathOf source).text (FileTree.pathOf target).text
  | .write location content =>
    IO.FS.writeBinFile (FileTree.pathOf location).text content

end Disk

end ChunkPrune
