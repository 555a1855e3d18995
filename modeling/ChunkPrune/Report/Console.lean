import ChunkPrune.Report.Figures
import ChunkPrune.Report.Style

/-!
# Console text

What a run prints: the results of each library, the totals, and the chunks that were
passed over.
-/

namespace ChunkPrune.Console

open Figures

def rule (c : Char) (width : Nat) : String := String.ofList (List.replicate width c)

def check (colored : Colored) : String := Style.boldGreen.paint colored "✓"

def warning (colored : Colored) : String := Style.boldYellow.paint colored "⚠"

def noChunks (colored : Colored) : String :=
  line (check colored ++ " No shared library chunks found to optimize.")

/-- A percentage, red below zero. -/
def signedPercent (colored : Colored) (x : Binary64) : String :=
  (if x.isNegative then Style.red else Style.green).paint colored (percent2 x)

/-- What happened to the modules of a chunk. -/
def pruneLine (colored : Colored) (prune : ModuleReport) : String :=
  match prune.skipReason with
  | some reason => line ("    Pruning skipped: " ++ Style.yellow.paint colored reason)
  | none =>
    line ("    Modules kept/pruned: " ++ countOf prune.kept ++ "/" ++ countOf prune.removed ++
      " (original: " ++ ((prune.moduleCount.map toString).getD "unknown") ++ ")")

def chunkEntry (colored : Colored) (result : PruneResult) : String :=
  line ("  " ++ result.app ++ "/" ++ result.fileName ++ ":") ++
    line ("    Size reduction: " ++ signedPercent colored result.reduction ++ " (" ++
      Text.thousands result.sizeBefore ++ " → " ++ Text.thousands result.sizeAfter ++
      " bytes)") ++
    pruneLine colored result.prune

def librarySection (colored : Colored) (group : String × List PruneResult) : String :=
  line ("\n" ++ Style.boldCyan.paint colored group.1 ++ ":") ++
    String.join (group.2.map (chunkEntry colored))

def results (colored : Colored) (results : List PruneResult) : String :=
  line ("\n" ++ Style.bold.paint colored "Optimization Summary") ++
    line (Style.dimmed.paint colored (rule '=' 24)) ++
    String.join ((byLibrary results).map (librarySection colored))

def totalLines (colored : Colored) (summary : Summary) : String :=
  let magnitude := summary.totalSaved.natAbs
  if summary.isGrowth then
    line ("  " ++ warning colored ++ " Total Increase: " ++
      Style.red.paint colored (percent2 summary.totalReduction.abs)) ++
    line ("  Total Added: " ++ sizes magnitude)
  else
    line ("  " ++ check colored ++ " Total Reduction: " ++
      Style.green.paint colored (percent2 summary.totalReduction)) ++
    line ("  Total Saved: " ++ sizes magnitude)

def topEntry (colored : Colored) (entry : LibraryFigures × Nat) : String :=
  let (stats, rank) := entry
  line ("  " ++ toString (rank + 1) ++ ". " ++ Style.cyan.paint colored stats.library ++ ":") ++
    line ("      Saved: " ++ megabytes stats.saved.natAbs ++ " (" ++ percent1 stats.reduction ++
      ")") ++
    if stats.modulesKept + stats.modulesPruned > 0 then
      line ("      Modules: " ++ toString stats.modulesKept ++ " kept, " ++
        toString stats.modulesPruned ++ " pruned")
    else ""

def topSection (colored : Colored) (summary : Summary) : String :=
  match summary.largestSavings Summary.topLimit with
  | [] => ""
  | top =>
    line ("\n" ++ Style.bold.paint colored "Top Optimizations:") ++
      String.join (top.zipIdx.map (topEntry colored))

def grownEntry (colored : Colored) (stats : LibraryFigures) : String :=
  line ("    " ++ stats.library ++ ": +" ++
    Style.red.paint colored (kilobytes stats.saved.natAbs) ++ " (" ++
    percent1 stats.reduction.abs ++ ")")

def grownSection (colored : Colored) (summary : Summary) : String :=
  match summary.grown with
  | [] => ""
  | grown =>
    line ("\n" ++ warning colored ++ " " ++
      Style.bold.paint colored "Libraries with Size Increases:") ++
    String.join (grown.map (grownEntry colored))

def moduleSection (colored : Colored) (summary : Summary) : String :=
  if summary.modulesSeen > 0 then
    line ("\n" ++ Style.bold.paint colored "Module Pruning Summary:") ++
      line ("  Total Modules Analyzed: " ++ toString summary.modulesSeen) ++
      line ("  Modules Kept: " ++ toString summary.modulesKept) ++
      line ("  Modules Pruned: " ++ toString summary.modulesPruned) ++
      line ("  Prune Rate: " ++ percent1 summary.prunedShare)
  else ""

def overall (colored : Colored) (summary : Summary) : String :=
  line ("\n" ++ rule '=' 60) ++
    line (Style.bold.paint colored "OVERALL OPTIMIZATION RESULTS") ++
    line (rule '=' 60) ++
    line ("\n" ++ Style.bold.paint colored "Bundle Size Analysis:") ++
    line ("  Original Total Size: " ++ sizes summary.totalBefore) ++
    line ("  Optimized Total Size: " ++ sizes summary.totalAfter) ++
    line ("  " ++ rule '-' 40) ++
    totalLines colored summary ++
    topSection colored summary ++
    grownSection colored summary ++
    moduleSection colored summary ++
    line ("\n" ++ rule '=' 60)

def skipLabel (colored : Colored) : SkipCause → String
  | .unsafeToPrune => Style.yellow.paint colored "skipped"
  | .notApplied => Style.blue.paint colored "not applied"
  | .failed => Style.red.paint colored "failed"

def skippedEntry (colored : Colored) (chunk : Skip) : String :=
  line ("  " ++ chunk.app ++ "/" ++ chunk.fileName ++ " (" ++
    Style.cyan.paint colored chunk.library ++ ") " ++ skipLabel colored chunk.cause ++ ": " ++
    chunk.reason)

/-- The chunks that were passed over, if there are any. -/
def skipped (colored : Colored) (chunks : List Skip) : String :=
  match chunks with
  | [] => ""
  | chunks =>
    line ("\n" ++ Style.boldBlue.paint colored "ℹ" ++ " " ++ toString chunks.length ++
      " chunk(s) not optimized:") ++
    String.join (chunks.map (skippedEntry colored))

/-- All that is printed about a run with chunks. -/
def summary (colored : Colored) (results : List PruneResult) (chunks : List Skip)
    (summary : Summary) : String :=
  (match results with
    | [] => line "No chunks were optimized."
    | results => Console.results colored results ++ overall colored summary) ++
  skipped colored chunks

def restored (colored : Colored) (paths : List Path) : String :=
  match paths with
  | [] => line (check colored ++ " No backups found, nothing to restore.")
  | paths =>
    String.join (paths.map fun path => line ("  restored " ++ path.text)) ++
      line (check colored ++ " Restored " ++ toString paths.length ++ " chunk(s)")

end ChunkPrune.Console
