import ChunkPrune.Chunk

/-!
# Restoring chunks

Every backup below the output directories is moved back onto its chunk. The backups of
an application are collected before the first of them is moved.
-/

namespace ChunkPrune

namespace FileTree

/-- All entries below a directory with their paths. Links in it are not entered. -/
def entriesBelow (tree : FileTree) (directory : Path) : List (Path × Entry) :=
  match tree.lookup true directory with
  | .ok (location, .directory) =>
    (tree.below location).map fun (names, entry) =>
      (names.foldl (fun path name => path.join ⟨name⟩) directory, entry)
  | _ => []

def pathsBelow (tree : FileTree) (directory : Path) : List Path :=
  (tree.entriesBelow directory).map (·.1)

/-- Why an entry with a path keeps a walk from going on: it is a directory that cannot be
entered by this path. -/
def barrier? (tree : FileTree) : Path × Entry → Option Failure
  | (path, .directory) =>
    match tree.lookup true path with
    | .ok _ => none
    | .error e => some (.walk path e)
  | _ => none

end FileTree

/-- A backup with the chunk it belongs to. -/
structure BackupPair where
  backup : Path
  chunk : Path
  deriving DecidableEq, Repr

/-- The backups below an output directory, unless the walk to them fails. -/
def findBackups (tree : FileTree) (outputDir : Path) : Except Failure (List BackupPair) :=
  match (tree.entriesBelow outputDir).findSome? tree.barrier? with
  | some failure => .error failure
  | none =>
    .ok <| (tree.pathsBelow outputDir).filterMap fun path =>
      if tree.isFile path then (Chunk.ofBackup? path).map fun chunk => ⟨path, chunk⟩
      else none

/-- Move backups back, up to the first that cannot be moved. The chunks that have their
backup come with the tree, also when not all could be moved. -/
def restorePairs (tree : FileTree) : List BackupPair → FileTree × Except Failure (List Path)
  | [] => (tree, .ok [])
  | pair :: rest =>
    match tree.rename pair.backup pair.chunk with
    | .error e => (tree, .error (.restore pair.chunk pair.backup e))
    | .ok tree =>
      let others := restorePairs tree rest
      (others.1, others.2.map (pair.chunk :: ·))

def restoreApps (tree : FileTree) : List Application → FileTree × Except Failure (List Path)
  | [] => (tree, .ok [])
  | app :: rest =>
    match findBackups tree app.outputDir with
    | .error failure => (tree, .error failure)
    | .ok pairs =>
      match restorePairs tree pairs with
      | (tree, .error failure) => (tree, .error failure)
      | (tree, .ok chunks) =>
        let others := restoreApps tree rest
        (others.1, others.2.map (chunks ++ ·))

/-- Restore all chunks; their paths are given in order. -/
def restoreAll (tree : FileTree) (apps : List Application) :
    FileTree × Except Failure (List Path) :=
  let (tree, result) := restoreApps tree apps
  (tree, result.map fun chunks => chunks.mergeSort Path.le)

end ChunkPrune
