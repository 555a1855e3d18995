import ChunkPrune.Proofs.Chunk.Found
import ChunkPrune.Proofs.Table.Entry

/-!
# Chunks that are found once

A physical chunk is told by its application, its library and its path. Chunks of two applications
or of two libraries are different, but within one library each listed name that cleans to the path
of a file gives a chunk of its own. So a chunk is found once exactly when no two names of the file
list spell it.
-/

namespace ChunkPrune

/-- The file list of a library; a library without one lists no files. -/
def LibraryRecord.files (record : LibraryRecord) : List String :=
  (record.characteristics.bind Characteristics.files?).getD []

namespace Chunk

variable {tree : FileTree} {reports : List AppReport} {report : AppReport} {chunk : Chunk}
  {library : String} {characteristics : Characteristics} {fileName : String}

/-- The two are one physical chunk. -/
structure Same (first second : Chunk) : Prop where
  app : first.app = second.app
  library : first.library = second.library
  path : first.path = second.path

/-- The name spells the path of a file in the output directory that may be pruned. -/
structure Spells (tree : FileTree) (outputDir : Path) (fileName : String) (path : Path) :
    Prop where
  target : isTarget fileName = true
  resolved : resolvePath? outputDir fileName = some path
  isFile : tree.isFile path = true

/-- No two names of the list spell one file. -/
def SpellApart (tree : FileTree) (outputDir : Path) (files : List String) : Prop :=
  files.Pairwise fun first second =>
    ∀ path, Spells tree outputDir first path → ¬ Spells tree outputDir second path

theorem locateFile?_eq_some_iff :
    locateFile? tree report library characteristics fileName = some chunk ↔
      ∃ path, Spells tree report.outputDir fileName path ∧
        chunk = ⟨path, report.app, fileName, library, characteristics⟩ := by
  constructor
  · intro located
    obtain ⟨target, resolved, isFile, shape⟩ := locateFile?_eq_some located
    exact ⟨chunk.path, ⟨target, resolved, isFile⟩, shape⟩
  · rintro ⟨path, spells, rfl⟩
    rw [locateFile?, if_pos spells.target, spells.resolved]
    simp only [spells.isFile, if_true]

theorem pairwise_locateFile? (files : List String) :
    (files.filterMap (locateFile? tree report library characteristics)).Pairwise
        (fun first second => ¬ Same first second) ↔
      SpellApart tree report.outputDir files := by
  rw [List.pairwise_filterMap, SpellApart]
  apply List.Pairwise.iff
  intro first second
  constructor
  · intro apart path spells again
    exact apart _ (locateFile?_eq_some_iff.mpr ⟨path, spells, rfl⟩) _
      (locateFile?_eq_some_iff.mpr ⟨path, again, rfl⟩) ⟨rfl, rfl, rfl⟩
  · intro apart one located other again same
    obtain ⟨path, spells, rfl⟩ := locateFile?_eq_some_iff.mp located
    obtain ⟨path, spellsToo, rfl⟩ := locateFile?_eq_some_iff.mp again
    cases same.path
    exact apart path spells spellsToo

/-- Within one library, the chunks are apart when the names are. -/
theorem pairwise_locateLibrary (entry : String × LibraryRecord) :
    (locateLibrary tree report entry).Pairwise (fun first second => ¬ Same first second) ↔
      SpellApart tree report.outputDir entry.2.files := by
  rw [locateLibrary, LibraryRecord.files]
  cases recorded : entry.2.characteristics with
  | none => exact iff_of_true List.Pairwise.nil List.Pairwise.nil
  | some characteristics =>
      simp only [Option.bind_some]
      cases listed : characteristics.files? with
      | none => exact iff_of_true List.Pairwise.nil List.Pairwise.nil
      | some files => exact pairwise_locateFile? files

theorem app_library_of_mem_locateLibrary {entry : String × LibraryRecord}
    (member : chunk ∈ locateLibrary tree report entry) :
    chunk.app = report.app ∧ chunk.library = entry.1 := by
  rw [locateLibrary] at member
  split at member
  · cases member
  · split at member
    · cases member
    · obtain ⟨fileName, -, located⟩ := List.mem_filterMap.mp member
      obtain ⟨path, -, rfl⟩ := locateFile?_eq_some_iff.mp located
      exact ⟨rfl, rfl⟩

/-- The chunks of one report: none without the output directory. -/
def locateIn (tree : FileTree) (report : AppReport) : List Chunk :=
  if tree.isDirectory report.outputDir then
    report.report.libraries.entries.flatMap (locateLibrary tree report)
  else []

theorem locate_eq_flatMap : locate tree reports = reports.flatMap (locateIn tree) := rfl

theorem app_of_mem_locateIn (member : chunk ∈ locateIn tree report) : chunk.app = report.app := by
  rw [locateIn] at member
  split at member
  · obtain ⟨entry, -, located⟩ := List.mem_flatMap.mp member
    exact (app_library_of_mem_locateLibrary located).1
  · cases member

/-- The chunks of two libraries are different, so within a report only the file lists count. -/
theorem pairwise_locateIn (tree : FileTree) (report : AppReport) :
    (locateIn tree report).Pairwise (fun first second => ¬ Same first second) ↔
      (tree.isDirectory report.outputDir = true →
        ∀ entry ∈ report.report.libraries.entries,
          SpellApart tree report.outputDir entry.2.files) := by
  rw [locateIn]
  split
  next isDirectory =>
    rw [List.pairwise_flatMap]
    constructor
    · intro apart _ entry member
      exact (pairwise_locateLibrary entry).mp (apart.1 entry member)
    · intro apart
      refine ⟨fun entry member =>
        (pairwise_locateLibrary entry).mpr (apart isDirectory entry member), ?_⟩
      apply (List.pairwise_map.mp report.report.libraries.nodup_keys).imp
      intro one other different first firstMember second secondMember same
      have firstLibrary := (app_library_of_mem_locateLibrary firstMember).2
      have secondLibrary := (app_library_of_mem_locateLibrary secondMember).2
      exact different (by rw [← firstLibrary, same.library, secondLibrary])
  next missing => exact iff_of_true List.Pairwise.nil fun isDirectory => absurd isDirectory missing

/-- Of reports for different applications, each physical chunk is located once if and only if in
every output directory that is there the file list of each library spells each file once. A list
with two spellings of one file gives the same chunk twice. -/
theorem locate_apart_iff (distinct : (reports.map (·.app)).Nodup) :
    (locate tree reports).Pairwise (fun first second => ¬ Same first second) ↔
      ∀ report ∈ reports, tree.isDirectory report.outputDir = true →
        ∀ entry ∈ report.report.libraries.entries,
          SpellApart tree report.outputDir entry.2.files := by
  rw [locate_eq_flatMap, List.pairwise_flatMap]
  constructor
  · intro apart report member
    exact (pairwise_locateIn tree report).mp (apart.1 report member)
  · intro apart
    refine ⟨fun report member => (pairwise_locateIn tree report).mpr (apart report member), ?_⟩
    apply (List.pairwise_map.mp distinct).imp
    intro one other different first firstMember second secondMember same
    exact different (by
      rw [← app_of_mem_locateIn firstMember, same.app, app_of_mem_locateIn secondMember])

/-- A library whose file list has the single chunk in two spellings. -/
def twiceReport : AppReport where
  app := "app"
  report := ⟨Table.singleton "library" ⟨Table.singleton "used" true, some
    ⟨[("chunk_files", .array [.string "a.js", .string "./a.js"])]⟩⟩⟩
  sourcePath := loneDir.join ⟨"u"⟩
  outputDir := loneDir

theorem spells_loneTree {fileName : String} (content : ByteArray)
    (target : isTarget fileName = true)
    (resolved : resolvePath? loneDir fileName = some loneSite.path) :
    Spells (loneTree content) loneDir fileName loneSite.path :=
  ⟨target, resolved,
    ((holds_loneTree content).reaches (linkFree_loneTree content)).isFile
      (holds_loneTree content).chunk⟩

/-- The two spellings give the one chunk twice. -/
theorem not_locate_apart_twiceReport :
    ([twiceReport].map (·.app)).Nodup ∧
      ¬ (locate (loneTree "a".toUTF8) [twiceReport]).Pairwise
        fun first second => ¬ Same first second := by
  have distinct : ([twiceReport].map (·.app)).Nodup := List.nodup_singleton _
  refine ⟨distinct, fun apart => ?_⟩
  have enters := enters_loneDir "a".toUTF8
  have once := (locate_apart_iff distinct).mp apart twiceReport (List.mem_singleton_self _)
    (FileTree.isDirectory_iff.mpr ⟨_, enters.lookup true⟩) _ (List.mem_singleton_self _)
  have plain : Spells (loneTree "a".toUTF8) loneDir "a.js" loneSite.path :=
    spells_loneTree _ (by decide) (by decide)
  have dotted : Spells (loneTree "a".toUTF8) loneDir "./a.js" loneSite.path :=
    spells_loneTree _ (by decide) (by decide)
  exact (List.pairwise_cons.mp once).1 _ (List.mem_singleton_self _) _ plain dotted

end Chunk

end ChunkPrune
