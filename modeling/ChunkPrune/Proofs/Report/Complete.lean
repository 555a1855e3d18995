import ChunkPrune.Proofs.Report.Shown
import ChunkPrune.Proofs.Summary.Exact

/-!
# Reports are complete and add up

Both reports have a section for each library, with an entry for each of its results. What the
entries show is told by their results, and so it adds up to the totals, which are counted apart
from the entries.
-/

namespace ChunkPrune

universe u

open Figures

/-- Results under the names of their libraries. Each library of the summary stands once, in the
order of names, with its results in their order, so that every result stands once, too. -/
structure Filed (results : List PruneResult) (groups : List (String × List PruneResult)) :
    Prop where
  ordered : groups.Pairwise fun first second => first.1 < second.1
  libraries : (groups.map (·.1)).Perm ((Summary.ofResults results).libraries.map (·.library))
  own : ∀ group ∈ groups, group.2 = results.filter (·.library = group.1)
  once : (groups.flatMap (·.2)).Perm results

/-- A report has a section for each group, under its name and with an entry for each result. -/
def Lists {Entry : Type u} (tells : PruneResult → Entry → Prop)
    (groups : List (String × List PruneResult)) (sections : List (String × List Entry)) : Prop :=
  List.Forall₂ (fun group part => part.1 = group.1 ∧ List.Forall₂ tells group.2 part.2)
    groups sections

/-- The figures of entries add up to the totals of a summary. -/
structure AddsUp (summary : Summary) (entries : List ShownChunk) : Prop where
  before : (entries.map fun entry => number entry.before).sum = summary.totalBefore
  after : (entries.map fun entry => number entry.after).sum = summary.totalAfter
  kept : (entries.map (·.kept)).sum = summary.modulesKept
  removed : (entries.map (·.removed)).sum = summary.modulesPruned

namespace Markdown

/-- The document: totals, and entries under the names of libraries. -/
structure Report where
  sizeBefore : String
  sizeAfter : String
  saved : String
  share : String
  analyzed : String
  pruned : String
  sections : List (String × List ShownEntry)

namespace Report

def totalsText (report : Report) : String :=
  "## Summary\n\n- **Total Original Size:** " ++ report.sizeBefore ++
    "\n- **Total Optimized Size:** " ++ report.sizeAfter ++ "\n- **Total Size Saved:** " ++
    report.saved ++ " (" ++ report.share ++ ")\n- **Total Modules Analyzed:** " ++
    report.analyzed ++ "\n- **Total Modules Pruned:** " ++ report.pruned ++ "\n\n"

def sectionText (part : String × List ShownEntry) : String :=
  "### " ++ part.1 ++ "\n\n" ++ String.join (part.2.map ShownEntry.text)

def text (report : Report) (timestamp : String) : String :=
  "# Module Federation Optimization Report\n\nGenerated: " ++ timestamp ++ "\n\n" ++
    report.totalsText ++ "## Detailed Results by Library\n\n" ++
    String.join (report.sections.map sectionText)

/-- The figures of all entries, from the first section to the last one. -/
def chunks (report : Report) : List ShownChunk :=
  (report.sections.flatMap (·.2)).map (·.toShownChunk)

/-- The document has the results in their groups, and its totals are those of the entries. -/
structure Complete (sample : Bool) (summary : Summary)
    (groups : List (String × List PruneResult)) (report : Report) : Prop where
  lists : Lists (ShownEntry.Tells wording sample) groups report.sections
  addsUp : AddsUp summary report.chunks
  sizeBefore : report.sizeBefore =
    megabytes (report.chunks.map fun entry => number entry.before).sum
  sizeAfter : report.sizeAfter = megabytes (report.chunks.map fun entry => number entry.after).sum
  saved : report.saved = signedMegabytes summary.totalSaved
  share : report.share = percent2 summary.totalReduction
  analyzedText : report.analyzed =
    toString ((report.chunks.map (·.kept)).sum + (report.chunks.map (·.removed)).sum)
  analyzed : number report.analyzed =
    (report.chunks.map (·.kept)).sum + (report.chunks.map (·.removed)).sum
  prunedText : report.pruned = toString (report.chunks.map (·.removed)).sum
  pruned : number report.pruned = (report.chunks.map (·.removed)).sum

end Report

end Markdown

namespace Console

/-- The totals of modules on the console. -/
structure ShownModules where
  analyzed : String
  kept : String
  pruned : String
  share : String

/-- What is printed: entries under the names of libraries, the total sizes, and the totals of
modules, if any were counted. -/
structure Report where
  sections : List (String × List ShownChunk)
  sizeBefore : String
  sizeAfter : String
  modules : Option ShownModules

namespace Report

def sectionText (colored : Colored) (part : String × List ShownChunk) : String :=
  "\n" ++ Style.boldCyan.paint colored part.1 ++ ":\n" ++ String.join (part.2.map entryText)

def resultsText (report : Report) (colored : Colored) : String :=
  "\n" ++ Style.bold.paint colored "Optimization Summary" ++ "\n" ++
    Style.dimmed.paint colored (rule '=' 24) ++ "\n" ++
    String.join (report.sections.map (sectionText colored))

def modulesText (report : Report) (colored : Colored) : String :=
  match report.modules with
  | none => ""
  | some modules =>
    "\n" ++ Style.bold.paint colored "Module Pruning Summary:" ++ "\n  Total Modules Analyzed: " ++
      modules.analyzed ++ "\n  Modules Kept: " ++ modules.kept ++ "\n  Modules Pruned: " ++
      modules.pruned ++ "\n  Prune Rate: " ++ modules.share ++ "\n"

/-- The totals. Between the sizes and the modules stand the libraries of the summary that saved
most, and those that grew. -/
def overallText (report : Report) (colored : Colored) (summary : Summary) : String :=
  "\n" ++ rule '=' 60 ++ "\n" ++ Style.bold.paint colored "OVERALL OPTIMIZATION RESULTS" ++ "\n" ++
    rule '=' 60 ++ "\n\n" ++ Style.bold.paint colored "Bundle Size Analysis:" ++
    "\n  Original Total Size: " ++ report.sizeBefore ++ "\n  Optimized Total Size: " ++
    report.sizeAfter ++ "\n  " ++ rule '-' 40 ++ "\n" ++ totalLines colored summary ++
    topSection colored summary ++ grownSection colored summary ++ report.modulesText colored ++
    "\n" ++ rule '=' 60 ++ "\n"

def chunks (report : Report) : List ShownChunk := report.sections.flatMap (·.2)

/-- The console has the results in their groups, and the totals are those of the entries. -/
structure Complete (colored : Colored) (summary : Summary)
    (groups : List (String × List PruneResult)) (report : Report) : Prop where
  lists : Lists (ShownChunk.Tells (wording colored)) groups report.sections
  addsUp : AddsUp summary report.chunks
  sizeBefore : report.sizeBefore = sizes (report.chunks.map fun entry => number entry.before).sum
  sizeAfter : report.sizeAfter = sizes (report.chunks.map fun entry => number entry.after).sum
  modules_iff : report.modules.isSome = true ↔
    0 < (report.chunks.map (·.kept)).sum + (report.chunks.map (·.removed)).sum
  modules : ∀ modules ∈ report.modules, modules =
    ⟨toString ((report.chunks.map (·.kept)).sum + (report.chunks.map (·.removed)).sum),
      toString (report.chunks.map (·.kept)).sum, toString (report.chunks.map (·.removed)).sum,
      percent1 summary.prunedShare⟩
  analyzed : ∀ modules ∈ report.modules, number modules.analyzed =
    (report.chunks.map (·.kept)).sum + (report.chunks.map (·.removed)).sum
  kept : ∀ modules ∈ report.modules, number modules.kept = (report.chunks.map (·.kept)).sum
  pruned : ∀ modules ∈ report.modules,
    number modules.pruned = (report.chunks.map (·.removed)).sum

end Report

end Console

/-! ## Sections -/

variable {results : List PruneResult}

theorem filed_byLibrary (results : List PruneResult) : Filed results (byLibrary results) := by
  refine ⟨pairwise_byLibrary results, (Summary.libraries_ranking_perm results).symm, ?_,
    flatMap_byLibrary_perm results⟩
  intro group member
  exact (mem_byLibrary_iff.mp member).1

section Sections

variable {Entry : Type u}

/-- Entries under the name of each group. -/
def sectionsOf (entry : PruneResult → Entry) (groups : List (String × List PruneResult)) :
    List (String × List Entry) :=
  groups.map fun group => (group.1, group.2.map entry)

theorem lists_sectionsOf {tells : PruneResult → Entry → Prop} {entry : PruneResult → Entry}
    (told : ∀ result, tells result (entry result)) (groups : List (String × List PruneResult)) :
    Lists tells groups (sectionsOf entry groups) := by
  rw [Lists, sectionsOf, List.forall₂_map_right_iff, List.forall₂_same]
  intro group _
  refine ⟨rfl, ?_⟩
  rw [List.forall₂_map_right_iff, List.forall₂_same]
  exact fun result _ => told result

/-- Entry by entry, a report tells the results of all groups. -/
theorem Lists.forall₂_flatMap {tells : PruneResult → Entry → Prop}
    {groups : List (String × List PruneResult)} {sections : List (String × List Entry)}
    (lists : Lists tells groups sections) :
    List.Forall₂ tells (groups.flatMap (·.2)) (sections.flatMap (·.2)) :=
  List.rel_flatMap lists fun _ _ group => group.2

end Sections

/-! ## Totals -/

/-- A library counts the modules of its chunks that were not declined. -/
theorem sum_map_filter_skipReason (value : PruneResult → Nat) (results : List PruneResult) :
    ((results.filter fun result => result.prune.skipReason.isNone).map value).sum =
      (results.map fun result =>
        if result.prune.skipReason = none then value result else 0).sum := by
  induction results with
  | nil => rfl
  | cons result rest inductionHypothesis =>
      by_cases counted : result.prune.skipReason = none
      · simp [counted, inductionHypothesis]
      · simp [counted, inductionHypothesis]

namespace Summary

theorem modulesKept_ofResults (results : List PruneResult) :
    (ofResults results).modulesKept =
      (results.map fun result =>
        if result.prune.skipReason = none then result.prune.keptCount else 0).sum := by
  rw [ofResults_eq, total_eq_sum]
  apply sum_ranking_eq
  intro group _
  exact sum_map_filter_skipReason _ _

theorem modulesPruned_ofResults (results : List PruneResult) :
    (ofResults results).modulesPruned =
      (results.map fun result =>
        if result.prune.skipReason = none then result.prune.removedCount else 0).sum := by
  rw [ofResults_eq, total_eq_sum]
  apply sum_ranking_eq
  intro group _
  exact sum_map_filter_skipReason _ _

end Summary

variable {wording : Wording}

/-- Entries that tell results in some order show sums over the results. -/
theorem sum_shown {listed : List PruneResult} {entries : List ShownChunk}
    (told : List.Forall₂ (ShownChunk.Tells wording) listed entries) (once : listed.Perm results)
    {figure : ShownChunk → Nat} {value : PruneResult → Nat}
    (tells : ∀ result chunk, chunk.Tells wording result → figure chunk = value result) :
    (entries.map figure).sum = (results.map value).sum := by
  -- in the order of the entries first, and then in that of the results
  have same : listed.map value = entries.map figure := by
    rw [← List.forall₂_eq_eq_eq, List.forall₂_map_left_iff, List.forall₂_map_right_iff]
    exact told.imp fun result chunk tell => (tells result chunk tell).symm
  rw [← same, (once.map value).sum_eq]

/-- The figures of entries add up to the totals as soon as they tell the results, each once. -/
theorem addsUp_of_tells (beforeFits : total (results.map (·.sizeBefore)) < sizeBound)
    (afterFits : total (results.map (·.sizeAfter)) < sizeBound)
    {listed : List PruneResult} {entries : List ShownChunk}
    (told : List.Forall₂ (ShownChunk.Tells wording) listed entries)
    (once : listed.Perm results) :
    AddsUp (Summary.ofResults results) entries := by
  refine ⟨?_, ?_, ?_, ?_⟩
  · rw [sum_shown told once fun _ _ tell => tell.before]
    exact (Nat.mod_eq_of_lt beforeFits).symm
  · rw [sum_shown told once fun _ _ tell => tell.after]
    exact (Nat.mod_eq_of_lt afterFits).symm
  · rw [Summary.modulesKept_ofResults]
    exact sum_shown told once fun _ _ tell => tell.kept
  · rw [Summary.modulesPruned_ofResults]
    exact sum_shown told once fun _ _ tell => tell.removed

/-! ## The two reports -/

namespace Markdown

def report (sample : Bool) (results : List PruneResult) : Report :=
  let summary := Summary.ofResults results
  { sizeBefore := megabytes summary.totalBefore
    sizeAfter := megabytes summary.totalAfter
    saved := signedMegabytes summary.totalSaved
    share := percent2 summary.totalReduction
    analyzed := toString summary.modulesSeen
    pruned := toString summary.modulesPruned
    sections := sectionsOf (shown sample) (byLibrary results) }

theorem librarySection_eq (sample : Bool) (group : String × List PruneResult) :
    librarySection sample group = Report.sectionText (group.1, group.2.map (shown sample)) := by
  have entries : group.2.map (chunkEntry sample) =
      (group.2.map (shown sample)).map ShownEntry.text := by
    rw [List.map_map]
    exact List.map_congr_left fun result _ => chunkEntry_eq sample result
  rw [librarySection, entries]
  unfold Report.sectionText
  simp [line, String.append_assoc]

theorem totals_eq (sample : Bool) (results : List PruneResult) :
    totals (Summary.ofResults results) = (report sample results).totalsText := by
  unfold Report.totalsText
  simp [totals, report, line, ← String.toList_inj]

theorem document_eq (timestamp : String) (sample : Bool) (results : List PruneResult) :
    document timestamp sample results (Summary.ofResults results) =
      (report sample results).text timestamp := by
  have sections : (byLibrary results).map (librarySection sample) =
      (report sample results).sections.map Report.sectionText := by
    rw [report, sectionsOf, List.map_map]
    exact List.map_congr_left fun group _ => librarySection_eq sample group
  unfold Report.text
  rw [document, totals_eq sample, sections]
  simp [line, ← String.toList_inj]

theorem complete_report (beforeFits : total (results.map (·.sizeBefore)) < sizeBound)
    (afterFits : total (results.map (·.sizeAfter)) < sizeBound) (sample : Bool) :
    (report sample results).Complete sample (Summary.ofResults results) (byLibrary results) := by
  have lists : Lists (ShownEntry.Tells wording sample) (byLibrary results)
      (report sample results).sections :=
    lists_sectionsOf (tells_shown sample) _
  have told : List.Forall₂ (ShownChunk.Tells wording) ((byLibrary results).flatMap (·.2))
      (report sample results).chunks := by
    rw [Report.chunks, List.forall₂_map_right_iff]
    exact lists.forall₂_flatMap.imp fun _ _ tell => tell.figures
  have addsUp := addsUp_of_tells beforeFits afterFits told (flatMap_byLibrary_perm results)
  have analyzed : (report sample results).analyzed =
      toString (((report sample results).chunks.map (·.kept)).sum +
        ((report sample results).chunks.map (·.removed)).sum) := by
    rw [addsUp.kept, addsUp.removed]
    rfl
  have pruned : (report sample results).pruned =
      toString ((report sample results).chunks.map (·.removed)).sum := by
    rw [addsUp.removed]
    rfl
  refine ⟨lists, addsUp, ?_, ?_, rfl, rfl, analyzed, ?_, pruned, ?_⟩
  · rw [addsUp.before]
    rfl
  · rw [addsUp.after]
    rfl
  · rw [analyzed]
    exact number_toString _
  · rw [pruned]
    exact number_toString _

end Markdown

namespace Console

def shownModules (summary : Summary) : ShownModules where
  analyzed := toString summary.modulesSeen
  kept := toString summary.modulesKept
  pruned := toString summary.modulesPruned
  share := percent1 summary.prunedShare

def report (colored : Colored) (results : List PruneResult) : Report :=
  let summary := Summary.ofResults results
  { sections := sectionsOf (shown colored) (byLibrary results)
    sizeBefore := sizes summary.totalBefore
    sizeAfter := sizes summary.totalAfter
    modules := if 0 < summary.modulesSeen then some (shownModules summary) else none }

theorem librarySection_eq (colored : Colored) (group : String × List PruneResult) :
    librarySection colored group =
      Report.sectionText colored (group.1, group.2.map (shown colored)) := by
  have entries : group.2.map (chunkEntry colored) =
      (group.2.map (shown colored)).map entryText := by
    rw [List.map_map]
    exact List.map_congr_left fun result _ => chunkEntry_eq colored result
  rw [librarySection, entries]
  unfold Report.sectionText
  simp [line, ← String.toList_inj]

theorem results_eq (colored : Colored) (results : List PruneResult) :
    Console.results colored results = (report colored results).resultsText colored := by
  have sections : (byLibrary results).map (librarySection colored) =
      (report colored results).sections.map (Report.sectionText colored) := by
    rw [report, sectionsOf, List.map_map]
    exact List.map_congr_left fun group _ => librarySection_eq colored group
  unfold Report.resultsText
  rw [Console.results, sections]
  simp [line, ← String.toList_inj]

theorem moduleSection_eq (colored : Colored) (results : List PruneResult) :
    moduleSection colored (Summary.ofResults results) =
      (report colored results).modulesText colored := by
  unfold Report.modulesText
  by_cases counted : 0 < (Summary.ofResults results).modulesSeen
  · rw [moduleSection, if_pos counted, report, if_pos counted]
    simp [shownModules, line, ← String.toList_inj]
  · rw [moduleSection, if_neg counted, report, if_neg counted]

theorem overall_eq (colored : Colored) (results : List PruneResult) :
    overall colored (Summary.ofResults results) =
      (report colored results).overallText colored (Summary.ofResults results) := by
  unfold Report.overallText
  rw [overall, moduleSection_eq]
  simp [report, line, ← String.toList_inj]

theorem complete_report (beforeFits : total (results.map (·.sizeBefore)) < sizeBound)
    (afterFits : total (results.map (·.sizeAfter)) < sizeBound) (colored : Colored) :
    (report colored results).Complete colored (Summary.ofResults results) (byLibrary results) := by
  have lists : Lists (ShownChunk.Tells (wording colored)) (byLibrary results)
      (report colored results).sections :=
    lists_sectionsOf (fun result => result.tells_shown _) _
  have addsUp : AddsUp (Summary.ofResults results) (report colored results).chunks :=
    addsUp_of_tells beforeFits afterFits lists.forall₂_flatMap (flatMap_byLibrary_perm results)
  have printed : ∀ modules ∈ (report colored results).modules,
      modules = shownModules (Summary.ofResults results) := by
    intro modules member
    rw [report, Option.mem_def, Option.ite_none_right_eq_some] at member
    exact (Option.some.inj member.2).symm
  refine ⟨lists, addsUp, ?_, ?_, ?_, ?_, ?_, ?_, ?_⟩
  · rw [addsUp.before]
    rfl
  · rw [addsUp.after]
    rfl
  · rw [addsUp.kept, addsUp.removed, report, Option.isSome_ite]
    exact Iff.rfl
  · intro modules member
    rw [printed modules member, addsUp.kept, addsUp.removed]
    rfl
  · intro modules member
    rw [printed modules member, addsUp.kept, addsUp.removed]
    exact number_toString _
  · intro modules member
    rw [printed modules member, addsUp.kept]
    exact number_toString _
  · intro modules member
    rw [printed modules member, addsUp.removed]
    exact number_toString _

end Console

/-- The document and the console list the results of each library under its name, in the same
order, each with one entry, and what they show adds up to the totals, as long as the sizes do not
add up to more than a number can tell. -/
theorem reports_complete (beforeFits : total (results.map (·.sizeBefore)) < sizeBound)
    (afterFits : total (results.map (·.sizeAfter)) < sizeBound)
    (timestamp : String) (sample : Bool) (colored : Colored) :
    ∃ groups, Filed results groups ∧
      (Markdown.document timestamp sample results (Summary.ofResults results) =
          (Markdown.report sample results).text timestamp ∧
        (Markdown.report sample results).Complete sample (Summary.ofResults results) groups) ∧
      Console.results colored results = (Console.report colored results).resultsText colored ∧
      Console.overall colored (Summary.ofResults results) =
        (Console.report colored results).overallText colored (Summary.ofResults results) ∧
      (Console.report colored results).Complete colored (Summary.ofResults results) groups := by
  refine ⟨byLibrary results, filed_byLibrary results, ⟨?_, ?_⟩, ?_, ?_, ?_⟩
  · exact Markdown.document_eq timestamp sample results
  · exact Markdown.complete_report beforeFits afterFits sample
  · exact Console.results_eq colored results
  · exact Console.overall_eq colored results
  · exact Console.complete_report beforeFits afterFits colored

/-! ## A long list, a list that is not known, and a chunk that was not pruned -/

/-- The first chunk has more removed modules than are listed, and the results of a library are
apart from each other. -/
def reportedResults : List PruneResult :=
  let long := sizedResult "host" "b" 10 7 none
  let unknown := sizedResult "remote" "b" 8 6 none
  [{ long with prune := ⟨some 60, none, some (List.replicate 51 "m"), none⟩ },
    sizedResult "host" "a" 5 9 (some "no runtime"),
    { unknown with prune := ⟨none, some ["k"], none, none⟩ }]

theorem reports_complete_reportedResults :
    total (reportedResults.map (·.sizeBefore)) < sizeBound ∧
      total (reportedResults.map (·.sizeAfter)) < sizeBound ∧
      ∃ groups, Filed reportedResults groups ∧
        (Markdown.document "now" true reportedResults (Summary.ofResults reportedResults) =
            (Markdown.report true reportedResults).text "now" ∧
          (Markdown.report true reportedResults).Complete true (Summary.ofResults reportedResults)
            groups) ∧
        Console.results true reportedResults =
          (Console.report true reportedResults).resultsText true ∧
        Console.overall true (Summary.ofResults reportedResults) =
          (Console.report true reportedResults).overallText true
            (Summary.ofResults reportedResults) ∧
        (Console.report true reportedResults).Complete true (Summary.ofResults reportedResults)
          groups := by
  have before : total (reportedResults.map (·.sizeBefore)) < sizeBound := by decide
  have after : total (reportedResults.map (·.sizeAfter)) < sizeBound := by decide
  exact ⟨before, after, reports_complete before after "now" true true⟩

end ChunkPrune
