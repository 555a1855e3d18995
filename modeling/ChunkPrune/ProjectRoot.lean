import ChunkPrune.Failure

/-!
# The root of a project

Without a directory given, the root is the nearest directory with an entry `.git`,
from the start upwards.
-/

namespace ChunkPrune.ProjectRoot

/-- The path itself and what is left of it as its last steps are dropped. -/
def ancestors (fuel : Nat) (path : Path) : List Path :=
  match fuel with
  | 0 => [path]
  | fuel + 1 =>
    match path.parent? with
    | some parent => path :: ancestors fuel parent
    | none => [path]

/-- All paths on the way up; a path has fewer steps than characters. -/
def wayUp (path : Path) : List Path := ancestors (path.text.length + 1) path

def isRepository (tree : FileTree) (path : Path) : Bool :=
  tree.pathExists (path.join ⟨".git"⟩)

/-- The nearest repository from a path upwards. -/
def enclosing (tree : FileTree) (start : Path) : Except Failure Path :=
  match (wayUp start).find? (isRepository tree) with
  | some root => .ok root
  | none => .error .noRepository

/-- The given root without links in it, or as it is when there is no such directory;
without one, the repository around the working directory. -/
def resolve (tree : FileTree) : Option Path → Except Failure Path
  | some root => .ok ((tree.canonical? root).getD root)
  | none => enclosing tree (FileTree.pathOf tree.workingDirectory)

end ChunkPrune.ProjectRoot
