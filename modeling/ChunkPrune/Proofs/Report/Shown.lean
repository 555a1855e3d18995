import ChunkPrune.Report.Console
import ChunkPrune.Report.Markdown

/-!
# What the reports show

An entry of a report has words that are the same for all chunks, and figures between them. The
figures are texts, each within one line; they and the numbers that they show are those of the
result that the entry is about.
-/

namespace ChunkPrune

/-! ## Numbers in figures -/

/-- The number that a figure shows: its digits count, whatever groups them. A word shows zero. -/
def Figures.number (figure : String) : Nat :=
  Nat.ofDigitChars 10 (figure.toList.filter Char.isDigit) 0

/-- Without anything but digits, the digits of groups are back. -/
theorem Text.filter_isDigit_groupDigits {digits : List Char}
    (each : ∀ c ∈ digits, c.isDigit = true) :
    (groupDigits digits).filter Char.isDigit = digits := by
  have noComma : ',' ∉ digits := fun member => absurd (each ',' member) (by decide)
  calc (groupDigits digits).filter Char.isDigit
    _ = ((groupDigits digits).filter (· ≠ ',')).filter Char.isDigit := by
        rw [List.filter_filter]
        refine List.filter_congr fun c _ => ?_
        by_cases comma : c = ','
        · subst comma
          decide
        · simp [comma]
    _ = digits := by rw [filter_groupDigits noComma, List.filter_eq_self.mpr each]

namespace Figures

theorem filter_isDigit_toDigits (n : Nat) :
    (Nat.toDigits 10 n).filter Char.isDigit = Nat.toDigits 10 n :=
  List.filter_eq_self.mpr fun _ member => Nat.isDigit_of_mem_toDigits (by decide) (by decide) member

theorem number_toString (n : Nat) : number (toString n) = n := by
  simp [number, filter_isDigit_toDigits]

theorem number_thousands (n : Nat) : number (Text.thousands n) = n := by
  have digits : ∀ c ∈ Nat.toDigits 10 n, c.isDigit = true := fun _ member =>
    Nat.isDigit_of_mem_toDigits (by decide) (by decide) member
  simp [number, Text.thousands, Text.filter_isDigit_groupDigits digits]

theorem number_unknown : number "unknown" = 0 := by decide

theorem number_countOf (list : Option (List String)) :
    number (countOf list) = (list.getD []).length := by
  cases list with
  | none => exact number_unknown
  | some items => exact number_toString items.length

/-! ## Figures within a line -/

/-- No line ends within the text. -/
def OneLine (text : String) : Prop := '\n' ∉ text.toList

theorem oneLine_append {first second : String} (left : OneLine first) (right : OneLine second) :
    OneLine (first ++ second) := by
  rw [OneLine, String.toList_append, List.mem_append]
  exact not_or.mpr ⟨left, right⟩

theorem newline_notMem_toDigits (n : Nat) : '\n' ∉ Nat.toDigits 10 n := by
  intro member
  have digit := Nat.isDigit_of_mem_toDigits (by decide) (by decide) member
  exact absurd digit (by decide)

theorem oneLine_toString (n : Nat) : OneLine (toString n) := by
  simp [OneLine, newline_notMem_toDigits]

theorem oneLine_unknown : OneLine "unknown" := by
  unfold OneLine
  decide

theorem oneLine_countOf (list : Option (List String)) : OneLine (countOf list) := by
  cases list with
  | none => exact oneLine_unknown
  | some items => exact oneLine_toString items.length

theorem oneLine_thousands (n : Nat) : OneLine (Text.thousands n) := by
  have noComma : ',' ∉ Nat.toDigits 10 n := by
    intro member
    have digit := Nat.isDigit_of_mem_toDigits (by decide) (by decide) member
    exact absurd digit (by decide)
  have grouped : '\n' ∉ Text.groupDigits (Nat.toDigits 10 n) := by
    intro member
    apply newline_notMem_toDigits n
    rw [← Text.filter_groupDigits noComma]
    exact List.mem_filter.mpr ⟨member, by decide⟩
  simpa [OneLine, Text.thousands] using grouped

theorem oneLine_fixed (places : Nat) (x : Binary64) : OneLine (Decimal.fixed places x) := by
  have padded : ∀ n, '\n' ∉ Decimal.padDigits places n := by
    intro n
    rw [Decimal.padDigits, List.mem_append, not_or]
    refine ⟨?_, newline_notMem_toDigits n⟩
    intro member
    exact absurd (List.eq_of_mem_replicate member) (by decide)
  have sign : '\n' ∉ if x.negative = true then ['-'] else [] := by
    split <;> decide
  rw [OneLine, Decimal.fixed, String.toList_ofList, List.mem_append, List.mem_append, not_or,
    not_or]
  refine ⟨⟨sign, newline_notMem_toDigits _⟩, ?_⟩
  split
  · exact List.not_mem_nil
  · rw [List.mem_cons, not_or]
    exact ⟨by decide, padded _⟩

theorem oneLine_percent2 (x : Binary64) : OneLine (percent2 x) := by
  have sign : OneLine "%" := by
    unfold OneLine
    decide
  exact oneLine_append (oneLine_fixed 2 x) sign

end Figures

open Figures

namespace Style

/-- A text whose style is resumed has its characters and those of the sequences. -/
theorem mem_of_mem_resume {start : List Char} {c : Char} {text : List Char}
    (member : c ∈ resume start text) : c ∈ start ∨ c ∈ reset ∨ c ∈ text := by
  fun_induction resume start text with
  | case1 rest inductionHypothesis =>
      rw [List.mem_append, List.mem_append] at member
      obtain (ending | starting) | later := member
      · exact .inr (.inl ending)
      · exact .inl starting
      · grind
  | case2 first rest _ inductionHypothesis =>
      rw [List.mem_cons] at member
      obtain here | later := member
      · exact .inr (.inr (List.mem_cons.mpr (.inl here)))
      · grind
  | case3 => exact absurd member List.not_mem_nil

/-- A style within a line keeps a text within a line. -/
theorem oneLine_paint {style : Style} (starts : '\n' ∉ sequence style.codes) {text : String}
    (within : OneLine text) (colored : Colored) : OneLine (style.paint colored text) := by
  have ends : '\n' ∉ reset := by decide
  cases colored with
  | false => exact within
  | true =>
      rw [OneLine, paint, if_pos rfl, String.toList_ofList, List.mem_append, List.mem_append,
        not_or, not_or]
      refine ⟨⟨starts, ?_⟩, ends⟩
      intro member
      obtain starting | ending | inside := mem_of_mem_resume member
      · exact starts starting
      · exact ends ending
      · exact within inside

end Style

/-! ## Entries -/

/-- How a report writes what the two reports write in their own ways: a percentage, a reason, and
a number of modules. -/
structure Wording where
  change : Binary64 → String
  reason : String → String
  total : Option Nat → String
  oneLine_change : ∀ x, OneLine (change x)
  oneLine_total : ∀ count, OneLine (total count)

/-- The counts of modules in an entry. -/
structure ShownCounts where
  total : String
  kept : String
  removed : String

/-- The figures in an entry about a chunk. There are no counts, but a reason, when the engine
declined to prune the chunk. -/
structure ShownChunk where
  title : String
  before : String
  after : String
  change : String
  counts : Except String ShownCounts

namespace ShownChunk

/-- The modules kept that an entry shows; none are counted where there is a reason instead. -/
def kept (chunk : ShownChunk) : Nat :=
  match chunk.counts with
  | .ok counts => number counts.kept
  | .error _ => 0

def removed (chunk : ShownChunk) : Nat :=
  match chunk.counts with
  | .ok counts => number counts.removed
  | .error _ => 0

/-- The texts between the words of an entry, apart from its title and its reason. -/
def figures (chunk : ShownChunk) : List String :=
  [chunk.before, chunk.after, chunk.change] ++
    match chunk.counts with
    | .ok counts => [counts.total, counts.kept, counts.removed]
    | .error _ => []

/-- The title and the figures are those of a result, in the wording of the report. -/
structure Tells (wording : Wording) (result : PruneResult) (chunk : ShownChunk) : Prop where
  title : chunk.title = result.app ++ "/" ++ result.fileName
  beforeText : chunk.before = Text.thousands result.sizeBefore
  before : number chunk.before = result.sizeBefore
  afterText : chunk.after = Text.thousands result.sizeAfter
  after : number chunk.after = result.sizeAfter
  change : chunk.change = wording.change result.reduction
  declined : (∃ reason, chunk.counts = .error reason) ↔ result.prune.skipReason ≠ none
  reason : ∀ text, result.prune.skipReason = some text →
    chunk.counts = .error (wording.reason text)
  counts : result.prune.skipReason = none → chunk.counts = .ok
    ⟨wording.total result.prune.moduleCount, countOf result.prune.kept,
      countOf result.prune.removed⟩
  kept : chunk.kept = if result.prune.skipReason = none then result.prune.keptCount else 0
  removed : chunk.removed = if result.prune.skipReason = none then result.prune.removedCount else 0
  oneLine : ∀ figure ∈ chunk.figures, OneLine figure

end ShownChunk

namespace PruneResult

/-- The figures of a result in the wording of a report. -/
def shown (result : PruneResult) (wording : Wording) : ShownChunk where
  title := result.app ++ "/" ++ result.fileName
  before := Text.thousands result.sizeBefore
  after := Text.thousands result.sizeAfter
  change := wording.change result.reduction
  counts :=
    match result.prune.skipReason with
    | some text => .error (wording.reason text)
    | none => .ok ⟨wording.total result.prune.moduleCount, countOf result.prune.kept,
        countOf result.prune.removed⟩

theorem oneLine_shown (result : PruneResult) (wording : Wording) :
    ∀ figure ∈ (result.shown wording).figures, OneLine figure := by
  have sizes : ∀ figure ∈ [Text.thousands result.sizeBefore, Text.thousands result.sizeAfter,
      wording.change result.reduction], OneLine figure := by
    simp [oneLine_thousands, wording.oneLine_change]
  intro figure member
  rw [ShownChunk.figures, List.mem_append] at member
  obtain size | count := member
  · exact sizes figure size
  · cases skipped : result.prune.skipReason with
    | some text => simp [shown, skipped] at count
    | none =>
        simp only [shown, skipped, List.mem_cons, List.not_mem_nil, or_false] at count
        obtain rfl | rfl | rfl := count
        · exact wording.oneLine_total _
        · exact oneLine_countOf _
        · exact oneLine_countOf _

theorem tells_shown (result : PruneResult) (wording : Wording) :
    (result.shown wording).Tells wording result := by
  refine ⟨rfl, rfl, number_thousands _, rfl, number_thousands _, rfl, ?_, ?_, ?_, ?_, ?_,
    result.oneLine_shown wording⟩
  · cases skipped : result.prune.skipReason <;> simp [shown, skipped]
  · intro text skipped
    rw [shown, skipped]
  · intro counted
    rw [shown, counted]
  · cases skipped : result.prune.skipReason <;>
      simp [ShownChunk.kept, shown, skipped, number_countOf, ModuleReport.keptCount]
  · cases skipped : result.prune.skipReason <;>
      simp [ShownChunk.removed, shown, skipped, number_countOf, ModuleReport.removedCount]

end PruneResult

namespace Console

/-- An entry on the console. -/
def entryText (chunk : ShownChunk) : String :=
  "  " ++ chunk.title ++ ":\n    Size reduction: " ++ chunk.change ++ " (" ++ chunk.before ++
    " → " ++ chunk.after ++ " bytes)\n" ++
  match chunk.counts with
  | .error reason => "    Pruning skipped: " ++ reason ++ "\n"
  | .ok counts => "    Modules kept/pruned: " ++ counts.kept ++ "/" ++ counts.removed ++
      " (original: " ++ counts.total ++ ")\n"

theorem oneLine_signedPercent (colored : Colored) (x : Binary64) :
    OneLine (signedPercent colored x) := by
  unfold signedPercent
  split
  · exact Style.oneLine_paint (by decide) (oneLine_percent2 x) colored
  · exact Style.oneLine_paint (by decide) (oneLine_percent2 x) colored

theorem oneLine_toString_getD (count : Option Nat) :
    OneLine ((count.map toString).getD "unknown") := by
  cases count with
  | none => exact oneLine_unknown
  | some n => exact oneLine_toString n

/-- Percentages and reasons are colored. -/
def wording (colored : Colored) : Wording where
  change := signedPercent colored
  reason := Style.yellow.paint colored
  total := fun count => (count.map toString).getD "unknown"
  oneLine_change := oneLine_signedPercent colored
  oneLine_total := oneLine_toString_getD

def shown (colored : Colored) (result : PruneResult) : ShownChunk :=
  result.shown (wording colored)

theorem chunkEntry_eq (colored : Colored) (result : PruneResult) :
    chunkEntry colored result = entryText (shown colored result) := by
  cases skipped : result.prune.skipReason <;>
    simp [chunkEntry, pruneLine, entryText, shown, PruneResult.shown, wording, skipped, line,
      ← String.toList_inj]

end Console

namespace Markdown

/-- A list of removed modules in the document: those that are listed, and how many more there
are. -/
structure ShownList where
  items : List String
  more : Option String

namespace ShownList

def text (list : ShownList) : String :=
  if list.items = [] then "\n**Removed Modules:** None (all modules kept)\n"
  else
    "\n**Removed Modules:**\n\n" ++
      String.join (list.items.map fun name => "- `" ++ name ++ "`\n") ++
      match list.more with
      | some count => "\n... and " ++ count ++ " more removed modules\n"
      | none => ""

/-- The first removed modules are listed, up to fifty, and the others are counted. -/
structure Tells (removed : List String) (list : ShownList) : Prop where
  items : list.items = removed.take (min 50 removed.length)
  more_iff : list.more.isSome = true ↔ 50 < removed.length
  moreText : ∀ count ∈ list.more, count = toString (removed.length - list.items.length)
  more : ∀ count ∈ list.more, number count = removed.length - list.items.length

end ShownList

def shownList (removed : List String) : ShownList :=
  ⟨removed.take removedLimit,
    if removedLimit < removed.length then some (toString (removed.length - removedLimit))
    else none⟩

theorem tells_shownList (removed : List String) : (shownList removed).Tells removed := by
  have counted : ∀ count ∈ (shownList removed).more,
      count = toString (removed.length - (shownList removed).items.length) := by
    intro count member
    by_cases long : removedLimit < removed.length
    · rw [shownList, if_pos long, Option.mem_some_iff] at member
      rw [← member, shownList, List.length_take, Nat.min_eq_left (Nat.le_of_lt long)]
    · rw [shownList, if_neg long] at member
      cases member
  refine ⟨?_, ?_, counted, ?_⟩
  · rw [shownList, List.take_eq_take_iff, removedLimit]
    omega
  · by_cases long : removedLimit < removed.length
    · rw [shownList, if_pos long]
      exact iff_of_true rfl long
    · rw [shownList, if_neg long]
      exact iff_of_false Bool.false_ne_true long
  · intro count member
    rw [counted count member]
    exact number_toString _

theorem moduleItem_eq : moduleItem = fun name => "- `" ++ name ++ "`\n" := by
  funext name
  simp [moduleItem, line, ← String.toList_inj]

theorem removedSection_some (removed : List String) :
    removedSection (some removed) = (shownList removed).text := by
  cases removed with
  | nil => rfl
  | cons first rest =>
      have filled : (shownList (first :: rest)).items ≠ [] := by simp [shownList, removedLimit]
      rw [ShownList.text, if_neg filled, removedSection, moduleItem_eq]
      · by_cases long : removedLimit < (first :: rest).length
        · rw [if_pos long, shownList, if_pos long]
          simp [line, ← String.toList_inj]
        · rw [if_neg long, shownList, if_neg long]
          simp [line]
      · exact List.cons_ne_nil _ _

/-- The kept modules in the document: how many they are, and the first ones if they are asked
for. -/
structure ShownKept where
  count : String
  sample : Option (List String)

namespace ShownKept

def text (list : ShownKept) : String :=
  "\n**Kept Modules:** " ++ list.count ++ " modules retained\n" ++
    match list.sample with
    | some items => "\n**Sample of Kept Modules (first 10):**\n\n" ++
        String.join (items.map fun name => "- `" ++ name ++ "`\n")
    | none => ""

end ShownKept

/-- Nothing is shown of modules that are not known, and nothing of none. -/
def shownKept (sample : Bool) : Option (List String) → Option ShownKept
  | none => none
  | some [] => none
  | some kept => some ⟨toString kept.length, if sample then some (kept.take 10) else none⟩

theorem keptSection_eq (sample : Bool) (kept : Option (List String)) :
    keptSection sample kept = ((shownKept sample kept).map ShownKept.text).getD "" := by
  have ten : toString keptSampleSize = "10" := by decide
  match kept with
  | none => rfl
  | some [] => rfl
  | some (first :: rest) =>
      simp only [shownKept, Option.map_some, Option.getD_some]
      unfold ShownKept.text
      rw [keptSection, moduleItem_eq, ten]
      · cases sample <;> simp [line, keptSampleSize, ← String.toList_inj]
      · exact List.cons_ne_nil _ _

/-- The counts of modules in the document. -/
def countsText (counts : ShownCounts) : String :=
  "- **Module Pruning:**\n  - Original Modules: " ++ counts.total ++ "\n  - Modules Kept: " ++
    counts.kept ++ "\n  - Modules Removed: " ++ counts.removed ++ "\n"

/-- An entry of the document: figures, and lists of modules. -/
structure ShownEntry extends ShownChunk where
  removedList : Option ShownList
  keptList : Option ShownKept

namespace ShownEntry

/-- What an entry says about modules. -/
def details (entry : ShownEntry) : String :=
  match entry.counts with
  | .error reason => "- **Status:** Skipped (" ++ reason ++ ")\n"
  | .ok counts => countsText counts ++ (entry.removedList.map ShownList.text).getD "" ++
      (entry.keptList.map ShownKept.text).getD ""

def text (entry : ShownEntry) : String :=
  "#### " ++ entry.title ++ "\n\n- **Original Size:** " ++ entry.before ++
    " bytes\n- **Optimized Size:** " ++ entry.after ++ " bytes\n- **Size Reduction:** " ++
    entry.change ++ "\n" ++ entry.details ++ "\n"

/-- The figures are those of a result, and lists of modules are told as far as they are listed. -/
structure Tells (wording : Wording) (sample : Bool) (result : PruneResult) (entry : ShownEntry) :
    Prop where
  figures : entry.toShownChunk.Tells wording result
  unknown : result.prune.removed = none → entry.removedList = none
  listed : ∀ removed, result.prune.removed = some removed →
    ∃ list, entry.removedList = some list ∧ list.Tells removed
  noneKept : result.prune.kept.getD [] = [] → entry.keptList = none
  kept : ∀ kept, result.prune.kept = some kept → kept ≠ [] →
    entry.keptList = some ⟨toString kept.length, if sample then some (kept.take 10) else none⟩

end ShownEntry

theorem oneLine_moduleTotal (count : Option Nat) : OneLine (moduleTotal count) := by
  unfold moduleTotal
  cases count.filter fun n => decide (0 < n) with
  | none => exact oneLine_unknown
  | some n => exact oneLine_toString n

/-- Percentages and reasons are plain, and no modules at all count as unknown. -/
def wording : Wording where
  change := percent2
  reason := id
  total := moduleTotal
  oneLine_change := oneLine_percent2
  oneLine_total := oneLine_moduleTotal

def shown (sample : Bool) (result : PruneResult) : ShownEntry where
  toShownChunk := result.shown wording
  removedList := result.prune.removed.map shownList
  keptList := shownKept sample result.prune.kept

theorem tells_shown (sample : Bool) (result : PruneResult) :
    (shown sample result).Tells wording sample result := by
  refine ⟨result.tells_shown wording, ?_, ?_, ?_, ?_⟩
  · intro unknown
    rw [shown, unknown, Option.map_none]
  · intro removed known
    rw [shown, known, Option.map_some]
    exact ⟨_, rfl, tells_shownList removed⟩
  · intro nothing
    rw [shown]
    match kept : result.prune.kept with
    | none => rfl
    | some [] => rfl
    | some (first :: rest) =>
        rw [kept] at nothing
        cases nothing
  · intro kept known filled
    rw [shown, known]
    cases kept with
    | nil => exact absurd rfl filled
    | cons first rest => rfl

theorem removedSection_eq (removed : Option (List String)) :
    removedSection removed = ((removed.map shownList).map ShownList.text).getD "" := by
  cases removed with
  | none => rfl
  | some removed => exact removedSection_some removed

theorem moduleDetails_eq (sample : Bool) (prune : ModuleReport) :
    moduleDetails sample prune =
      countsText ⟨moduleTotal prune.moduleCount, countOf prune.kept, countOf prune.removed⟩ ++
        removedSection prune.removed ++ keptSection sample prune.kept := by
  unfold countsText
  simp [moduleDetails, line, ← String.toList_inj]

theorem details_shown (sample : Bool) (result : PruneResult) :
    (shown sample result).details =
      match result.prune.skipReason with
      | some reason => line ("- **Status:** Skipped (" ++ reason ++ ")")
      | none => moduleDetails sample result.prune := by
  unfold ShownEntry.details
  cases skipped : result.prune.skipReason with
  | some reason => simp [shown, PruneResult.shown, wording, skipped, line, ← String.toList_inj]
  | none =>
      simp [shown, PruneResult.shown, wording, skipped, moduleDetails_eq, removedSection_eq,
        keptSection_eq]

theorem chunkEntry_eq (sample : Bool) (result : PruneResult) :
    chunkEntry sample result = (shown sample result).text := by
  unfold ShownEntry.text
  rw [chunkEntry, details_shown]
  cases result.prune.skipReason with
  | some reason => simp [shown, PruneResult.shown, wording, line, ← String.toList_inj]
  | none =>
      generalize moduleDetails sample result.prune = details
      simp [shown, PruneResult.shown, wording, line, ← String.toList_inj]

end Markdown

end ChunkPrune
