import ChunkPrune.Engine.Basic

/-!
# The workbench

The files that pruning works on, the staged files that have no name in the tree yet,
and the calls made to the engine so far. Each operation is atomic, and one that is
refused changes nothing.
-/

namespace ChunkPrune

/-- A file being written, before it gets its name in a directory. -/
structure StagedFile where
  directory : Location
  content : ByteArray
  deriving DecidableEq

structure Workbench where
  tree : FileTree
  staged : Table Nat StagedFile
  calls : List EngineCall

namespace Workbench

def ofTree (tree : FileTree) : Workbench := ⟨tree, Table.empty, []⟩

/-- A number that no staged file has. -/
def freshStaged (bench : Workbench) : Nat :=
  match bench.staged.keys.getLast? with
  | some last => last + 1
  | none => 0

/-- Create an empty staged file in a directory. -/
def createStaged (bench : Workbench) (directory : Path) :
    Except OsError (Nat × Workbench) :=
  match bench.tree.lookup true directory with
  | .ok (location, .directory) =>
    let file := bench.freshStaged
    .ok (file, { bench with staged := bench.staged.insert file ⟨location, .empty⟩ })
  | .ok (_, _) => .error .notDirectory
  | .error e => .error e

/-- Add bytes at the end of a staged file. -/
def appendStaged (bench : Workbench) (file : Nat) (bytes : ByteArray) :
    Except OsError Workbench :=
  match bench.staged.get? file with
  | some staged =>
    let grown := { staged with content := staged.content ++ bytes }
    .ok { bench with staged := bench.staged.insert file grown }
  | none => .error .notFound

def discardStaged (bench : Workbench) (file : Nat) : Workbench :=
  { bench with staged := bench.staged.erase file }

/-- Give a staged file its name, which must be free. -/
def publishStaged (bench : Workbench) (file : Nat) (target : Path) :
    Except OsError Workbench :=
  match bench.staged.get? file with
  | some staged =>
    (bench.tree.placeNew target staged.content).map fun tree =>
      { bench.discardStaged file with tree }
  | none => .error .notFound

/-- Give a staged file its name, in place of what has it. -/
def replaceWithStaged (bench : Workbench) (file : Nat) (target : Path) :
    Except OsError Workbench :=
  match bench.staged.get? file with
  | some staged =>
    (bench.tree.replaceAt target (.file staged.content)).map fun tree =>
      { bench.discardStaged file with tree }
  | none => .error .notFound

def truncate (bench : Workbench) (path : Path) : Except OsError Workbench :=
  (bench.tree.writeFile path .empty).map fun tree => { bench with tree }

def append (bench : Workbench) (path : Path) (bytes : ByteArray) :
    Except OsError Workbench :=
  (bench.tree.appendFile path bytes).map fun tree => { bench with tree }

def recordCall (bench : Workbench) (call : EngineCall) : Workbench :=
  { bench with calls := bench.calls ++ [call] }

end Workbench

/-- A way to write bytes in pieces, which together are the bytes. -/
structure Cutting where
  pieces : ByteArray → List ByteArray
  joined : ∀ bytes, (pieces bytes).foldl (· ++ ·) .empty = bytes

/-- All bytes at once. -/
def Cutting.whole : Cutting := ⟨fun bytes => [bytes], fun _ => ByteArray.empty_append⟩

/-- An operation under a fault: it is refused if there is one. -/
def underFault {α : Type} (fault : Option OsError) (result : Except OsError α) :
    Except OsError α :=
  match fault with
  | some e => .error e
  | none => result

end ChunkPrune
