import ChunkPrune.Engine.External
import ChunkPrune.Report.Console
import ChunkPrune.Run

/-!
# The program

The first argument names a command and the others are its settings. The program ends
with code 0, with 1 when a run fails, and with 2 when the arguments are refused.
-/

namespace ChunkPrune

inductive Command where
  | optimize (args : OptimizeArgs)
  | merge (args : MergeArgs)
  | restore (args : RestoreArgs)

/-- What a command leaves when it does not fail. -/
inductive CommandResult where
  | optimized (run : RunReport)
  | merged (usage : MergedUsage) (output : Option Path)
  | restored (paths : List Path)

namespace Command

/-- The names of commands, the one that explains the others among them. -/
def names : List String := ["optimize", "merge", "restore", "help"]

def read : List String → Except UsageError Command
  | [] => .error .missingCommand
  | "optimize" :: rest => (OptimizeArgs.read rest).map optimize
  | "merge" :: rest => (MergeArgs.read rest).map merge
  | "restore" :: rest => (RestoreArgs.read rest).map restore
  | ["help"] => .error .helpRequested
  | ["help", name] =>
    .error (if names.contains name then .helpRequested else .unknownCommand)
  | argument :: _ =>
    if ["-h", "--help"].contains argument then .error .helpRequested
    else if argument ≠ "-" ∧ Text.startsWith argument "-" then .error .unknownArgument
    else .error .unknownCommand

/-- The number of workers that is reported, of a number that there is without a setting. -/
def workers (available : Nat) : Command → Nat
  | optimize args => (args.jobs.filter (0 < ·)).getD available
  | _ => available

/-- Run a command. A program is looked up before anything is read or written. -/
def run (surroundings : Surroundings) (tree : FileTree) :
    Command → FileTree × Except Failure CommandResult
  | optimize args =>
    match ExternalEngine.load args.engine args.engineArgs with
    | .error failure => (tree, .error failure)
    | .ok engine =>
      let (bench, result) := runOptimize surroundings (engine.toEngine tree) args tree
      (bench.tree, result.map .optimized)
  | merge args =>
    let (tree, result) := runMerge surroundings args tree
    (tree, result.map fun usage => .merged usage args.output)
  | restore args =>
    let (tree, result) := runRestore args tree
    (tree, result.map .restored)

end Command

/-- What a run took. -/
structure Effort where
  milliseconds : Nat
  workers : Nat
  deriving DecidableEq, Repr

structure ProgramOutcome where
  code : Nat
  output : String
  errors : String
  deriving DecidableEq, Repr

namespace Console

def bullet (colored : Colored) : String := Style.brightBlue.paint colored "●"

def counted (colored : Colored) (n : Nat) : String := Style.cyan.paint colored (toString n)

/-- The last line about a run that prunes chunks. -/
def optimizeFooter (colored : Colored) (effort : Effort) (run : RunReport) : String :=
  Figures.line ("\n" ++ bullet colored ++ " Finished in " ++
    counted colored effort.milliseconds ++ "ms on " ++ counted colored run.chunksFound ++
    " chunks from " ++ counted colored run.apps.length ++ " apps (using " ++
    counted colored effort.workers ++ " threads).")

/-- The last line about a run that restores chunks. -/
def restoreFooter (colored : Colored) (effort : Effort) : String :=
  Figures.line ("\n" ++ bullet colored ++ " Finished in " ++
    counted colored effort.milliseconds ++ "ms.")

def reportLine (colored : Colored) : Option Path → String
  | some path => Figures.line (check colored ++ " Detailed report saved to: " ++ path.text)
  | none => ""

end Console

namespace CommandResult

/-- What a command prints. -/
def text (colored : Colored) (effort : Effort) : CommandResult → String
  | optimized run =>
    (if run.chunksFound = 0 then Console.noChunks colored
      else Console.summary colored run.results run.skipped run.summary) ++
    Console.reportLine colored run.reportPath ++
    Console.optimizeFooter colored effort run
  | merged usage none => Figures.line usage.toJson.pretty
  | merged _ (some _) => ""
  | restored paths =>
    Console.restored colored paths ++ Console.restoreFooter colored effort

end CommandResult

namespace ProgramOutcome

def failureText (failure : Failure) : String :=
  Figures.line ("Error: " ++ failure.message) ++
    if failure.causes.isEmpty then ""
    else
      Figures.line "\nCaused by:" ++
        String.join (failure.causes.map fun cause => Figures.line ("    " ++ cause))

def usage : String :=
  Figures.line "Usage: optimize --engine PROGRAM [OPTIONS]" ++
    Figures.line "       merge [OPTIONS]" ++
    Figures.line "       restore [OPTIONS]"

def ofUsageError : UsageError → ProgramOutcome
  | .helpRequested => ⟨0, usage, ""⟩
  | e => ⟨2, "", Figures.line ("error: " ++ e.message) ++ "\n" ++ usage⟩

def ofResult (colored : Colored) (effort : Effort) :
    Except Failure CommandResult → ProgramOutcome
  | .ok result => ⟨0, result.text colored effort, ""⟩
  | .error failure => ⟨1, "", failureText failure⟩

end ProgramOutcome

end ChunkPrune
