import ChunkPrune.Usage.Load

/-!
# Shared chunks on disk

A chunk is a file in the output directory of an application that the build emitted
for one library. Its name comes from the report, so the path is cleaned and must stay
within the output directory.
-/

namespace ChunkPrune

/-- A chunk file, as the chunk of one library of one application. -/
structure Chunk where
  path : Path
  app : String
  fileName : String
  library : String
  characteristics : Characteristics
  deriving DecidableEq

namespace Chunk

def extension : String := ".js"

def mapSuffix : String := ".map"

def backupSuffix : String := ".original"

/-- Endings of files that are made from a chunk and are not chunks themselves. -/
def derivedSuffixes : List String := [mapSuffix, backupSuffix, ".optimized.js"]

/-- A file of this name may be pruned. -/
def isTarget (fileName : String) : Bool :=
  Text.endsWith fileName extension &&
    !derivedSuffixes.any fun suffix => Text.endsWith fileName suffix

def mapPath (chunk : Chunk) : Path := chunk.path.append mapSuffix

/-- The path of the backup of the chunk at a path. -/
def backupPath (path : Path) : Path := path.append backupSuffix

/-- The path of the chunk that a backup belongs to, if the path is that of one. -/
def ofBackup? (backup : Path) : Option Path :=
  match Text.stripEnd? backup.text backupSuffix with
  | some text => if Text.endsWith text extension then some ⟨text⟩ else none
  | none => none

/-- The cleaned path of a file name in an output directory, if it lies strictly
within the directory. -/
def resolvePath? (outputDir : Path) (fileName : String) : Option Path :=
  let base := outputDir.clean
  let path := (outputDir.join ⟨fileName⟩).clean
  if path.isUnder base && !path.sameSteps base then some path else none

/-- The chunk of one file name in a report, if there is such a file. -/
def locateFile? (tree : FileTree) (report : AppReport) (library : String)
    (characteristics : Characteristics) (fileName : String) : Option Chunk :=
  if isTarget fileName then
    match resolvePath? report.outputDir fileName with
    | some path =>
      if tree.isFile path then some ⟨path, report.app, fileName, library, characteristics⟩
      else none
    | none => none
  else none

/-- The chunks of one library of a report, in the order of its file list. -/
def locateLibrary (tree : FileTree) (report : AppReport)
    (library : String × LibraryRecord) : List Chunk :=
  match library.2.characteristics with
  | none => []
  | some characteristics =>
    match characteristics.files? with
    | none => []
    | some files => files.filterMap (locateFile? tree report library.1 characteristics)

/-- The chunks of all reports: by report, then by library, then by file. -/
def locate (tree : FileTree) (reports : List AppReport) : List Chunk :=
  reports.flatMap fun report =>
    if tree.isDirectory report.outputDir then
      report.report.libraries.entries.flatMap (locateLibrary tree report)
    else []

end Chunk

end ChunkPrune
