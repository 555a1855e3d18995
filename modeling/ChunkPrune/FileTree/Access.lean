import ChunkPrune.FileTree.Resolve

/-!
# Reading and changing files

An operation that is refused leaves the tree as it was: only a successful one has a
tree as its result.
-/

namespace ChunkPrune

inductive ReadError where
  | os (cause : OsError)
  | notText
  deriving DecidableEq, Repr

def ReadError.message : ReadError → String
  | os cause => cause.message
  | notText => "stream did not contain valid UTF-8"

namespace FileTree

def readBytes (tree : FileTree) (path : Path) : Except OsError ByteArray :=
  match tree.lookup true path with
  | .ok (_, .file content) => .ok content
  | .ok (_, _) => .error .isDirectory
  | .error e => .error e

def readText (tree : FileTree) (path : Path) : Except ReadError String :=
  match tree.readBytes path with
  | .error e => .error (.os e)
  | .ok content =>
    match String.fromUTF8? content with
    | some text => .ok text
    | none => .error .notText

/-- The number of bytes that a directory is said to have. -/
def directoryLength : Nat := 4096

def length (tree : FileTree) (path : Path) : Except OsError Nat :=
  match tree.lookup true path with
  | .ok (_, .file content) => .ok content.size
  | .ok (_, _) => .ok directoryLength
  | .error e => .error e

/-- The location of a file that may be written: one that is there, or a free place. -/
def writable (tree : FileTree) (path : Path) : Except OsError Location :=
  match tree.resolve true path with
  | .ok (.occupied location (.file _)) => .ok location
  | .ok (.occupied _ _) => .error .isDirectory
  | .ok (.slashed _) => .error .isDirectory
  | .ok (.vacant location slash) => if slash then .error .isDirectory else .ok location
  | .error e => .error e

/-- Give a file a new content; a missing file is created. -/
def writeFile (tree : FileTree) (path : Path) (content : ByteArray) :
    Except OsError FileTree :=
  match tree.writable path with
  | .ok location => .ok (tree.put location (.file content))
  | .error e => .error e

/-- Add bytes at the end of a file that is there. -/
def appendFile (tree : FileTree) (path : Path) (content : ByteArray) :
    Except OsError FileTree :=
  match tree.lookup true path with
  | .ok (location, .file before) => .ok (tree.put location (.file (before ++ content)))
  | .ok (_, _) => .error .isDirectory
  | .error e => .error e

/-- Put a new file at a place that must be free. -/
def placeNew (tree : FileTree) (path : Path) (content : ByteArray) :
    Except OsError FileTree :=
  match tree.resolve false path with
  | .ok (.vacant location slash) =>
    if slash then .error .notDirectory else .ok (tree.put location (.file content))
  | .ok (.occupied _ _) => .error .alreadyExists
  | .ok (.slashed _) => .error .alreadyExists
  | .error e => .error e

/-- Put an entry that is no directory at a place, instead of what is there, which
must be no directory either. -/
def replaceAt (tree : FileTree) (path : Path) (entry : Entry) : Except OsError FileTree :=
  match tree.resolve false path with
  | .ok (.vacant location slash) =>
    if slash then .error .notDirectory else .ok (tree.put location entry)
  | .ok (.occupied _ .directory) => .error .isDirectory
  | .ok (.occupied location _) => .ok (tree.put location entry)
  | .ok (.slashed _) => .error .notDirectory
  | .error e => .error e

/-- Move an entry that is no directory to another place. A link is moved itself. -/
def rename (tree : FileTree) (source target : Path) : Except OsError FileTree :=
  match tree.lookup false source with
  | .ok (_, .directory) => .error .isDirectory
  | .ok (location, entry) =>
    match tree.lookup false target with
    | .ok (other, _) =>
      if other = location then .ok tree
      else (tree.replaceAt target entry).map (·.remove location)
    | .error _ => (tree.replaceAt target entry).map (·.remove location)
  | .error e => .error e

/-- The tree with an entry at a location, and with directories on the way to it. -/
def plant (tree : FileTree) (location : Location) (entry : Entry) : FileTree :=
  let ways := (List.range location.length).map location.take
  let tree := ways.foldl
    (fun tree way => if (tree.entry? way).isSome then tree else tree.put way .directory) tree
  if location.isEmpty then tree else tree.put location entry

end FileTree

end ChunkPrune
