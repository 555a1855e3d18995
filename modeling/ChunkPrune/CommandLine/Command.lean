import ChunkPrune.CommandLine.Reader

/-!
# Commands

The three commands with their settings, and what the settings mean for a root.
-/

namespace ChunkPrune

/-- Where the applications of a project are. -/
structure Workspace where
  root : Option Path
  apps : List AppSpec
  usageFile : String
  deriving DecidableEq, Repr

namespace Workspace

def ofSettings (settings : List Setting) : Workspace :=
  { root := settings.findSome? fun
      | .root path => some path
      | _ => none
    apps := settings.filterMap fun
      | .app spec => some spec
      | _ => none
    usageFile := (settings.findSome? fun
      | .usageFile name => some name
      | _ => none).getD usageFileName }

/-- The applications with their output directories, in the order given. -/
def applications (args : Workspace) (root : Path) : List Application :=
  match args.apps with
  | [] => AppSpec.defaults.map (AppSpec.application root)
  | apps => apps.map (AppSpec.application root)

end Workspace

structure OptimizeArgs where
  workspace : Workspace
  engine : String
  engineArgs : List String
  report : Bool
  reportPath : Option Path
  keptSample : Bool
  noValidate : Bool
  jobs : Option Nat
  deriving DecidableEq, Repr

namespace OptimizeArgs

/-- The name of the report document below the root. -/
def defaultReport : String := "optimization_report.md"

/-- A run needs an engine. -/
def ofSettings (settings : List Setting) : Except UsageError OptimizeArgs :=
  match settings.findSome? fun | .engine program => some program | _ => none with
  | none => .error .missingRequired
  | some engine =>
    .ok
      { workspace := Workspace.ofSettings settings
        engine
        engineArgs := settings.filterMap fun
          | .engineArg argument => some argument
          | _ => none
        report := settings.contains .report
        reportPath := settings.findSome? fun
          | .reportPath path => some path
          | _ => none
        keptSample := settings.contains .keptSample
        noValidate := settings.contains .noValidate
        jobs := settings.findSome? fun
          | .jobs count => some count
          | _ => none }

def read (arguments : List String) : Except UsageError OptimizeArgs := do
  ofSettings (← readSettings Switch.ofOptimize arguments)

def reportFile (args : OptimizeArgs) (root : Path) : Path :=
  match args.reportPath with
  | some path => root.join path
  | none => root.join ⟨defaultReport⟩

end OptimizeArgs

structure MergeArgs where
  workspace : Workspace
  output : Option Path
  deriving DecidableEq, Repr

def MergeArgs.read (arguments : List String) : Except UsageError MergeArgs := do
  let settings ← readSettings Switch.ofMerge arguments
  .ok
    { workspace := Workspace.ofSettings settings
      output := settings.findSome? fun
        | .output path => some path
        | _ => none }

structure RestoreArgs where
  workspace : Workspace
  deriving DecidableEq, Repr

def RestoreArgs.read (arguments : List String) : Except UsageError RestoreArgs := do
  let settings ← readSettings Switch.ofRestore arguments
  .ok ⟨Workspace.ofSettings settings⟩

end ChunkPrune
