import ChunkPrune.Failure
import ChunkPrune.Usage.Report

/-!
# Loading usage reports

Each application has its report in its output directory. An application without a
readable report is left out; when all are left out, there is nothing to work on.
-/

namespace ChunkPrune

/-- The usual name of a report. -/
def usageFileName : String := "share-usage.json"

/-- An application and the directory with its build output. -/
structure Application where
  name : String
  outputDir : Path
  deriving DecidableEq, Repr

/-- The report of an application, with where it was found. -/
structure AppReport where
  app : String
  report : UsageReport
  sourcePath : Path
  outputDir : Path
  deriving DecidableEq

def FileTree.readReport (tree : FileTree) (path : Path) : Except Failure UsageReport :=
  match tree.readText path with
  | .error cause => .error (.unreadable path cause)
  | .ok text =>
    match UsageReport.read? text with
    | some report => .ok report
    | none => .error (.usageNotJson path)

/-- The report of an application, if there is a readable one. -/
def Application.load? (tree : FileTree) (usageFile : String) (app : Application) :
    Option AppReport :=
  let path := app.outputDir.join ⟨usageFile⟩
  if tree.isFile path then
    match tree.readReport path with
    | .ok report => some ⟨app.name, report, path, app.outputDir⟩
    | .error _ => none
  else none

def loadReports (tree : FileTree) (usageFile : String) (apps : List Application) :
    Except Failure (List AppReport) :=
  match apps.filterMap (Application.load? tree usageFile) with
  | [] => .error (.noUsageReports usageFile (apps.map (·.name)))
  | reports => .ok reports

end ChunkPrune
