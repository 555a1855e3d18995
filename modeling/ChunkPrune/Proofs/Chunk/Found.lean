import ChunkPrune.Proofs.Chunk.Inside
import ChunkPrune.Proofs.FileTree.Leads
import ChunkPrune.Proofs.Path.Text
import ChunkPrune.Proofs.Prune.Single

/-!
# Files that are located

In a tree without links, a path that is followed name by name and the cleaned path lead to the
same file. So a file strictly inside an output directory is located under every name that leads
to it from there, and a name is refused only when it leads to the directory itself or out of it.
-/

namespace ChunkPrune

namespace FileTree

variable {tree : FileTree}

/-- From an open location, segments that pass through directories lead to an open location. -/
theorem Passes.opened {here there : Location} {segments : List String}
    (passes : tree.Passes here segments there) (opened : tree.Open [] here) :
    tree.Open [] there := by
  induction segments generalizing here with
  | nil => exact passes ▸ opened
  | cons segment rest inductionHypothesis =>
      rw [Passes] at passes
      split at passes
      · exact inductionHypothesis passes opened
      · split at passes
        · refine inductionHypothesis passes ?_
          rcases List.eq_nil_or_concat here with rfl | ⟨initial, last, rfl⟩
          · exact opened
          · rw [List.concat_eq_append] at opened ⊢
            rw [List.dropLast_concat]
            exact opened.left
        · obtain ⟨fits, isDirectory, further⟩ := passes
          exact inductionHypothesis further
            (open_append.mpr ⟨opened, fits, isDirectory, trivial⟩)

/-- A file that an absolute path leads to is denoted by the cleaned path as well. -/
theorem lookup_pathOf_of_lookup (linkFree : tree.LinkFree) {path : Path}
    (absolute : path.isAbsolute = true) {location : Location} {content : ByteArray}
    (found : tree.lookup true path = .ok (location, .file content)) :
    location = path.location ∧
      tree.lookup true (pathOf location) = .ok (location, .file content) := by
  have place : location = path.location :=
    (location_of_lookup (linkFree.not_crosses path) found).trans
      (tree.destination_of_isAbsolute absolute)
  obtain ⟨directory, name, leads, accepted, shape, file⟩ := exists_leads linkFree found
  obtain ⟨front, segments, passes⟩ := leads.passes
  rw [start, if_pos absolute] at passes
  have opened : tree.Open [] directory := passes.opened trivial
  have names : ∀ other ∈ directory ++ [name], Path.IsName other := by
    rw [← shape, place]
    exact fun _ => Path.isName_of_mem_location
  have clean : refusal? directory name = none := by
    obtain ⟨noNul, short, fits⟩ := Path.refusal?_eq_none_iff.mp accepted
    have named : (pathOf (directory ++ [name])).refusal? name = none := by
      rw [← shape, place]
      exact Path.refusal?_eq_none_iff.mpr
        ⟨fun found => noNul (Path.mem_of_mem_pathOf_location absolute found),
          Nat.lt_of_le_of_lt (Path.utf8ByteSize_pathOf_location_le absolute) short, fits⟩
    exact named
  have reaches : tree.Reaches (pathOf (directory ++ [name])) (directory ++ [name]) :=
    reaches_of_open linkFree (fun other member => names other (List.mem_append_left _ member))
      leads.isName opened clean
  refine ⟨place, ?_⟩
  rw [shape] at file ⊢
  exact reaches.lookup file

end FileTree

namespace Chunk

variable {outputDir path : Path} {fileName : String}

/-- In an absolute output directory, a file name is taken when it leads strictly within it. -/
theorem resolvePath?_eq_some_iff_within (absolute : outputDir.isAbsolute = true) :
    resolvePath? outputDir fileName = some path ↔
      path = FileTree.pathOf (outputDir.join ⟨fileName⟩).location ∧
        Within outputDir (outputDir.join ⟨fileName⟩).location := by
  have joined := Path.isAbsolute_join ⟨fileName⟩ absolute
  rw [resolvePath?_eq_some_iff, Path.clean_eq_pathOf absolute, Path.clean_eq_pathOf joined]
  refine and_congr_right fun same => ?_
  rw [same, Path.isUnder, Path.components_pathOf fun _ => Path.isName_of_mem_location,
    Path.components_pathOf fun _ => Path.isName_of_mem_location, List.isPrefixOf_iff_prefix,
    Bool.eq_false_iff, Ne, Path.sameSteps_pathOf_iff (fun _ => Path.isName_of_mem_location)
      fun _ => Path.isName_of_mem_location, List.cons_prefix_cons,
    List.prefix_map_iff_of_injective fun _ _ same => Path.Component.name.inj same]
  constructor
  · rintro ⟨⟨-, names, shape⟩, apart⟩
    refine ⟨names, ?_, shape.symm⟩
    rintro rfl
    rw [List.append_nil] at shape
    exact apart shape.symm
  · rintro ⟨names, nonempty, shape⟩
    rw [shape]
    exact ⟨⟨rfl, List.prefix_append _ _⟩, by simpa using nonempty⟩

/-- In an absolute output directory, a file name is refused when what its segments lead to from
there does not lie strictly within it. -/
theorem resolvePath?_eq_none_iff (absolute : outputDir.isAbsolute = true) (fileName : String) :
    resolvePath? outputDir fileName = none ↔
      ¬ Within outputDir (Path.follow (FileTree.start outputDir.location ⟨fileName⟩)
        (Path.segments ⟨fileName⟩)) := by
  rw [← Path.location_join_start absolute, Option.eq_none_iff_forall_not_mem]
  constructor
  · intro refused within
    exact refused _ ((resolvePath?_eq_some_iff_within absolute).mpr ⟨rfl, within⟩)
  · intro outside path resolved
    exact outside ((resolvePath?_eq_some_iff_within absolute).mp resolved).2

/-! ## The file lists of a report -/

variable {tree : FileTree} {reports : List AppReport} {report : AppReport} {library : String}
  {characteristics : Characteristics}

/-- The text stands in the file list of the library in the report. -/
structure Listed (report : AppReport) (library : String) (characteristics : Characteristics)
    (fileName : String) : Prop where
  record : ∃ record, (library, record) ∈ report.report.libraries.entries ∧
    record.characteristics = some characteristics
  item : ∃ items, Entries.get? "chunk_files" characteristics.members = some (.array items) ∧
    Json.string fileName ∈ items

theorem Listed.exists_files (listed : Listed report library characteristics fileName) :
    ∃ files, characteristics.files? = some files ∧ fileName ∈ files := by
  obtain ⟨items, found, member⟩ := listed.item
  refine ⟨items.filterMap Json.string?, ?_, List.mem_filterMap.mpr ⟨_, member, rfl⟩⟩
  rw [Characteristics.files?, found]

/-- What is located for a listed file is among the chunks. -/
theorem Listed.mem_locate (listed : Listed report library characteristics fileName)
    (reportMember : report ∈ reports) (isDirectory : tree.isDirectory report.outputDir = true)
    {chunk : Chunk}
    (located : locateFile? tree report library characteristics fileName = some chunk) :
    chunk ∈ locate tree reports := by
  obtain ⟨record, entry, described⟩ := listed.record
  obtain ⟨files, named, fileMember⟩ := listed.exists_files
  refine List.mem_flatMap.mpr ⟨report, reportMember, ?_⟩
  rw [if_pos isDirectory]
  refine List.mem_flatMap.mpr ⟨(library, record), entry, ?_⟩
  rw [locateLibrary, described]
  simp only [named]
  exact List.mem_filterMap.mpr ⟨fileName, fileMember, located⟩

/-- A listed name that leads to a file strictly within the output directory has a chunk, with a
path that denotes the file. -/
theorem Listed.exists_mem_locate (listed : Listed report library characteristics fileName)
    (linkFree : tree.LinkFree) (reportMember : report ∈ reports)
    (absolute : report.outputDir.isAbsolute = true) {directory : Location}
    (entered : tree.lookup true report.outputDir = .ok (directory, .directory))
    (target : isTarget fileName = true) {names : Location} (strictly : names ≠ [])
    {content : ByteArray} (found : tree.lookup true (report.outputDir.join ⟨fileName⟩) =
      .ok (directory ++ names, .file content)) :
    ∃ path, tree.lookup true path = .ok (directory ++ names, .file content) ∧
      ⟨path, report.app, fileName, library, characteristics⟩ ∈ locate tree reports := by
  have top : directory = report.outputDir.location :=
    (FileTree.location_of_lookup (linkFree.not_crosses _) entered).trans
      (tree.destination_of_isAbsolute absolute)
  obtain ⟨place, clean⟩ := FileTree.lookup_pathOf_of_lookup linkFree
    (Path.isAbsolute_join ⟨fileName⟩ absolute) found
  have resolved : resolvePath? report.outputDir fileName =
      some (FileTree.pathOf (directory ++ names)) := by
    refine (resolvePath?_eq_some_iff_within absolute).mpr ⟨by rw [place], names, strictly, ?_⟩
    rw [← place, top]
  have isDirectory := FileTree.isDirectory_iff.mpr ⟨directory, entered⟩
  have isFile := FileTree.isFile_iff.mpr ⟨_, content, clean⟩
  refine ⟨_, clean, listed.mem_locate reportMember isDirectory ?_⟩
  rw [locateFile?, if_pos target]
  simp only [resolved, isFile, if_true]

/-- Cleaning loses no chunk. In a tree without links, each listed name that leads from an absolute
output directory to a file strictly within it has a chunk, with a path that denotes the file. A
name is refused exactly when its segments, followed from the output directory, lead to the
directory itself or to somewhere outside. -/
theorem locate_complete :
    (∀ (tree : FileTree) (reports : List AppReport), tree.LinkFree → ∀ report ∈ reports,
      report.outputDir.isAbsolute = true → ∀ directory,
      tree.lookup true report.outputDir = .ok (directory, .directory) →
      ∀ library characteristics fileName, Listed report library characteristics fileName →
      isTarget fileName = true → ∀ names content, names ≠ [] →
      tree.lookup true (report.outputDir.join ⟨fileName⟩) =
        .ok (directory ++ names, .file content) →
      ∃ path, tree.lookup true path = .ok (directory ++ names, .file content) ∧
        ⟨path, report.app, fileName, library, characteristics⟩ ∈ locate tree reports) ∧
    ∀ (outputDir : Path) (fileName : String), outputDir.isAbsolute = true →
      (resolvePath? outputDir fileName = none ↔
        ¬ Within outputDir (Path.follow (FileTree.start outputDir.location ⟨fileName⟩)
          (Path.segments ⟨fileName⟩))) := by
  constructor
  · intro tree reports linkFree report reportMember absolute directory entered library
      characteristics fileName listed target names content strictly found
    exact listed.exists_mem_locate linkFree reportMember absolute entered target strictly found
  · exact fun outputDir fileName absolute => resolvePath?_eq_none_iff absolute fileName

/-- A name of the single chunk that leaves its directory and comes back. -/
def windingName : String := "../dist/./a.js"

/-- A report with this name, of a build whose output directory is not spelled cleanly either. -/
def windingReport : AppReport :=
  ⟨"app", loneUsageReport windingName, (dottedDir 1).join ⟨"u"⟩, dottedDir 1⟩

theorem listed_windingReport :
    Listed windingReport "library" (loneCharacteristics windingName) windingName :=
  ⟨⟨_, List.mem_singleton_self _, rfl⟩, ⟨_, rfl, List.mem_singleton_self _⟩⟩

theorem lookup_windingName (content : ByteArray) :
    (loneTree content).lookup true (windingReport.outputDir.join ⟨windingName⟩) =
      .ok (["dist"] ++ ["a.js"], .file content) := by
  have segments : (windingReport.outputDir.join ⟨windingName⟩).segments =
      ["", ".", "dist", "..", "dist", "."] ++ ["a.js"] := by decide
  have start : (windingReport.outputDir.join ⟨windingName⟩).isAbsolute = true := by decide
  have passes : (loneTree content).Passes [] ["", ".", "dist", "..", "dist", "."] ["dist"] :=
    ⟨by decide, rfl, by decide, rfl, rfl⟩
  have leads : (loneTree content).Leads (windingReport.outputDir.join ⟨windingName⟩) ["dist"]
      "a.js" := by
    refine ⟨⟨by decide, by decide, by decide⟩, _, segments, ?_⟩
    rw [FileTree.start, if_pos start]
    exact passes
  have accepted : (windingReport.outputDir.join ⟨windingName⟩).refusal? "a.js" = none := by decide
  have file : FileTree.entry? (loneTree content) (["dist"] ++ ["a.js"]) =
      some (.file content) := rfl
  exact (leads.reaches (linkFree_loneTree content) accepted).lookup file

/-- In the tree with one chunk, a name that winds to it is located. -/
theorem locate_complete_loneTree :
    (loneTree "a".toUTF8).LinkFree ∧ windingReport.outputDir.isAbsolute = true ∧
      (loneTree "a".toUTF8).lookup true windingReport.outputDir = .ok (["dist"], .directory) ∧
      Listed windingReport "library" (loneCharacteristics windingName) windingName ∧
      isTarget windingName = true ∧
      (loneTree "a".toUTF8).lookup true (windingReport.outputDir.join ⟨windingName⟩) =
        .ok (["dist"] ++ ["a.js"], .file "a".toUTF8) ∧
      ∃ path, (loneTree "a".toUTF8).lookup true path =
          .ok (["dist"] ++ ["a.js"], .file "a".toUTF8) ∧
        ⟨path, "app", windingName, "library", loneCharacteristics windingName⟩ ∈
          locate (loneTree "a".toUTF8) [windingReport] := by
  have linkFree := linkFree_loneTree "a".toUTF8
  have absolute : windingReport.outputDir.isAbsolute = true := isAbsolute_dottedDir 1
  have enters : (loneTree "a".toUTF8).Enters (dottedDir 1) := enters_dottedDir rfl (by decide)
  have entered := enters.lookup true
  rw [location_dottedDir] at entered
  have target : isTarget windingName = true := by decide
  have found := lookup_windingName "a".toUTF8
  exact ⟨linkFree, absolute, entered, listed_windingReport, target, found,
    locate_complete.1 _ [windingReport] linkFree windingReport (List.mem_singleton_self _) absolute
      _ entered _ _ _ listed_windingReport target _ _ (List.cons_ne_nil _ _) found⟩

end Chunk

end ChunkPrune
