import ChunkPrune.Report.Figures

/-!
# The report document

A document with the totals of a run and, for each library and each of its chunks, the
sizes and the modules that were removed. Long lists are cut and the rest is counted.
-/

namespace ChunkPrune.Markdown

open Figures

/-- The number of removed modules listed for a chunk. -/
def removedLimit : Nat := 50

/-- The number of kept modules listed for a chunk, when they are asked for. -/
def keptSampleSize : Nat := 10

def signedMegabytes (bytes : Int) : String :=
  (if bytes < 0 then "-" else "") ++ megabytes bytes.natAbs

def moduleItem (name : String) : String := line ("- `" ++ name ++ "`")

/-- The removed modules: all of a short list, the first ones of a long list. -/
def removedSection : Option (List String) → String
  | none => ""
  | some [] => line "\n**Removed Modules:** None (all modules kept)"
  | some removed =>
    line "\n**Removed Modules:**\n" ++
      String.join ((removed.take removedLimit).map moduleItem) ++
      if removedLimit < removed.length then
        line ("\n... and " ++ toString (removed.length - removedLimit) ++
          " more removed modules")
      else ""

/-- The number of kept modules, and the first of them when a sample is asked for. -/
def keptSection (sample : Bool) : Option (List String) → String
  | none => ""
  | some [] => ""
  | some kept =>
    line ("\n**Kept Modules:** " ++ toString kept.length ++ " modules retained") ++
      if sample then
        line ("\n**Sample of Kept Modules (first " ++ toString keptSampleSize ++ "):**\n") ++
          String.join ((kept.take keptSampleSize).map moduleItem)
      else ""

/-- The number of modules before pruning; zero counts as unknown. -/
def moduleTotal (count : Option Nat) : String :=
  ((count.filter (0 < ·)).map toString).getD "unknown"

def moduleDetails (sample : Bool) (prune : ModuleReport) : String :=
  line "- **Module Pruning:**" ++
    line ("  - Original Modules: " ++ moduleTotal prune.moduleCount) ++
    line ("  - Modules Kept: " ++ countOf prune.kept) ++
    line ("  - Modules Removed: " ++ countOf prune.removed) ++
    removedSection prune.removed ++
    keptSection sample prune.kept

def chunkEntry (sample : Bool) (result : PruneResult) : String :=
  line ("#### " ++ result.app ++ "/" ++ result.fileName ++ "\n") ++
    line ("- **Original Size:** " ++ Text.thousands result.sizeBefore ++ " bytes") ++
    line ("- **Optimized Size:** " ++ Text.thousands result.sizeAfter ++ " bytes") ++
    line ("- **Size Reduction:** " ++ percent2 result.reduction) ++
    (match result.prune.skipReason with
      | some reason => line ("- **Status:** Skipped (" ++ reason ++ ")")
      | none => moduleDetails sample result.prune) ++
    line ""

def librarySection (sample : Bool) (group : String × List PruneResult) : String :=
  line ("### " ++ group.1 ++ "\n") ++ String.join (group.2.map (chunkEntry sample))

def totals (summary : Summary) : String :=
  line "## Summary\n" ++
    line ("- **Total Original Size:** " ++ megabytes summary.totalBefore) ++
    line ("- **Total Optimized Size:** " ++ megabytes summary.totalAfter) ++
    line ("- **Total Size Saved:** " ++ signedMegabytes summary.totalSaved ++ " (" ++
      percent2 summary.totalReduction ++ ")") ++
    line ("- **Total Modules Analyzed:** " ++ toString summary.modulesSeen) ++
    line ("- **Total Modules Pruned:** " ++ toString summary.modulesPruned ++ "\n")

/-- The document about some results, written at a given time. -/
def document (timestamp : String) (sample : Bool) (results : List PruneResult)
    (summary : Summary) : String :=
  line "# Module Federation Optimization Report\n" ++
    line ("Generated: " ++ timestamp ++ "\n") ++
    totals summary ++
    line "## Detailed Results by Library\n" ++
    String.join ((byLibrary results).map (librarySection sample))

end ChunkPrune.Markdown
