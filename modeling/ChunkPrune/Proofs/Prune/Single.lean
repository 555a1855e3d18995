import ChunkPrune.AppSpec
import ChunkPrune.Usage.Merge
import ChunkPrune.Proofs.FileTree.Spelled
import ChunkPrune.Proofs.Prune.Grouping

/-!
# Batches of a single chunk

A batch over one chunk does to the site of the chunk what pruning it does, and nothing
elsewhere. With an engine that always gives the same source, the chunk has this source in the
end, and its backup has what the chunk was. The tree with such a chunk, its usage report and the
paths to it are those on which results about runs have their instances.
-/

namespace ChunkPrune

section Single

variable {tree : FileTree} {site : Site} {slot : Slot}

theorem Pool.exists_steps_single (merged : MergedUsage) (settings : PruneSettings)
    (linkFree : tree.LinkFree) (holds : tree.Holds site slot) {chunk : Chunk}
    (place : chunk.path = site.path) :
    ∃ pool, Pool.Steps settings.engine.Only merged settings (.start (.ofTree tree) [chunk]) pool ∧
      pool.Finished ∧ tree.Evolves site.Places pool.bench.tree ∧
      pool.bench.tree.Holds site
        (slot.prune settings.engine merged settings site chunk).1 := by
  have allowed : settings.engine.Only settings.engine := rfl
  obtain ⟨pool, steps, finished, -⟩ :=
    Pool.exists_steps_pruneChunks allowed merged (.ofTree tree) [chunk]
  have sited : ∀ other ∈ [chunk], ∃ site : Site, other.path = site.path := by
    intro other member
    rw [List.mem_singleton.mp member]
    exact ⟨site, place⟩
  refine ⟨pool, steps, finished, ?_, ?_⟩
  · obtain ⟨plan, covers, invariant⟩ := steps.exists_invariant linkFree sited
    apply invariant.evolves.mono
    rintro location ⟨group, member, groupPlace⟩
    obtain ⟨entry, listed, path⟩ := covers.exists_entry member
    rw [List.mem_singleton.mp (mem_numbered listed), place] at path
    rw [Site.path_injective path]
    exact groupPlace
  · obtain ⟨after, outcomes, ended, prunes⟩ := steps.prunesGroup linkFree sited finished holds
    have group : atPath (numbered [chunk]) site.path = [(0, chunk)] := by
      simp [atPath, numbered, place]
    rw [group] at prunes
    cases prunes with
    | cons engine chosen others =>
        cases others
        cases chosen
        exact ended

/-- A batch over a chunk that can be pruned and read gets to the call of the engine. -/
theorem Pool.exists_steps_call {merged : MergedUsage} {settings : PruneSettings} {chunk : Chunk}
    {source : String} (begun : (chunk.begin merged settings).2 = .read)
    (read : tree.readText chunk.path = .ok source) :
    ∃ pool, Pool.Steps settings.engine.Only merged settings (.start (.ofTree tree) [chunk]) pool ∧
      pool.bench.calls = [⟨source, (chunk.begin merged settings).1.config⟩] := by
  have allowed : settings.engine.Only settings.engine := rfl
  have taken := Pool.step_at settings.engine.Only merged settings [] [] (.ofTree tree)
    (.ofGroup [(0, chunk)]) allowed
  have first : ((GroupTask.ofGroup [(0, chunk)]).step merged settings settings.engine
      (.ofTree tree)) =
      (.ofTree tree, ⟨[], some ⟨0, (chunk.begin merged settings).1, .read⟩, []⟩) := by
    rw [← begun]
    rfl
  rw [first] at taken
  have opened := Pool.step_at settings.engine.Only merged settings [] [] (.ofTree tree)
    ⟨[], some ⟨0, (chunk.begin merged settings).1, .read⟩, []⟩ allowed
  have second : GroupTask.step merged settings settings.engine (.ofTree tree)
      ⟨[], some ⟨0, (chunk.begin merged settings).1, .read⟩, []⟩ =
      (.ofTree tree, ⟨[], some ⟨0, (chunk.begin merged settings).1, .call source⟩, []⟩) := by
    have running : PruneStage.outcome? .read = none := rfl
    have stepped : PruneStage.step ((chunk.begin merged settings).1.withEngine settings.engine)
        none (.ofTree tree) .read = (.ofTree tree, .call source) := by
      have place : FileTree.readText (Workbench.ofTree tree).tree
          ((chunk.begin merged settings).1.withEngine settings.engine).chunk.path =
            .ok source := read
      simp only [PruneStage.step, place]
    rw [GroupTask.step_of_running running]
    simp only [stepped]
  rw [second] at opened
  have called := Pool.step_at settings.engine.Only merged settings [] [] (.ofTree tree)
    ⟨[], some ⟨0, (chunk.begin merged settings).1, .call source⟩, []⟩ allowed
  exact ⟨_, .head taken (.head opened (.single called)), rfl⟩

end Single

/-! ## Chunks that get new source -/

section Begun

variable {merged : MergedUsage} {settings : PruneSettings} {chunk : Chunk} {site : Site}
  {slot : Slot} {source : String} {content : ByteArray}

/-- A chunk is read when its library has flags and its build names an entry. -/
theorem Chunk.begin_read (filled : (merged.keepFlags chunk.library).isEmpty = false)
    {entry : String} (entered : chunk.characteristics.entryModule? = some entry)
    (settings : PruneSettings) : (chunk.begin merged settings).2 = .read := by
  simp [Chunk.begin, filled, entered]

namespace Slot

/-- A backup is made where there is none, and instead of an empty one. -/
theorem publish_of_gives (accepted : FileTree.refusal? site.directory site.backupName = none)
    (gives : slot.backup = none ∨ slot.backup = some (.file .empty) ∧ source ≠ "")
    (content : ByteArray) :
    slot.publish site source content =
      ({ slot with backup := some (.file content) }, .ok true) := by
  rcases gives with vacant | ⟨emptied, nonempty⟩
  · rw [publish, backupPlace, accepted]
    simp only [vacant]
  · simp [publish, inspect, replace, backupPlace, accepted, emptied, nonempty]

/-- A backup that is not empty is kept. -/
theorem publish_of_filled (accepted : FileTree.refusal? site.directory site.backupName = none)
    (kept : slot.backup = some (.file content)) (filled : content.size ≠ 0) (source : String)
    (other : ByteArray) : slot.publish site source other = (slot, .ok false) := by
  simp [publish, inspect, backupPlace, accepted, kept, filled]

/-- What becomes of a chunk that is read, when the answer gives new source that is accepted. -/
theorem prune_of_answer {text after : String} {prune : ModuleReport}
    (place : chunk.path = site.path) (begun : (chunk.begin merged settings).2 = .read)
    (read : slot.chunk = source.toUTF8)
    (answered : settings.engine ⟨source, (chunk.begin merged settings).1.config⟩ = .ok text)
    (told : Answer.read? text = some (.success after prune))
    (approves : settings.accepts site.path source after = true) :
    slot.prune settings.engine merged settings site chunk =
      overwrite (chunk.begin merged settings).1 ⟨source, after, prune⟩
        (slot.publish site source source.toUTF8) := by
  have approved : (chunk.begin merged settings).1.verdict source (.ok text) =
      .ok ⟨source, after, prune⟩ := by
    have own : settings.accepts chunk.path source after = true := place ▸ approves
    simp [PruneJob.verdict, told, Chunk.begin, own]
  rw [Slot.prune, begun, finish, Text.fromUTF8?_eq_some_iff.mpr read]
  show slot.conclude _ site ((chunk.begin merged settings).1.verdict source _) = _
  rw [answered, approved, conclude]

end Slot

end Begun

/-! ## A library with a single chunk -/

/-- An answer with new source, in the words of the engine. -/
def sourceAnswer : String := "\x7b\"optimized_source\":\"x\"\x7d"

theorem read?_sourceAnswer : Answer.read? sourceAnswer = some (.success "x" .silent) := by
  decide +kernel

/-- An engine that answers every call with the same source, which is not checked. -/
def steadySettings : PruneSettings := ⟨fun _ => .ok sourceAnswer, fun _ _ => true, false, .whole⟩

def loneCharacteristics (name : String) : Characteristics :=
  ⟨[("chunk_files", .array [.string name]), ("entry_module_id", .string "main")]⟩

/-- What a build says that emitted one file for one library, of which one export is used. -/
def loneUsageReport (name : String) : UsageReport :=
  ⟨Table.singleton "library"
    ⟨Table.singleton "used" true, some (loneCharacteristics name)⟩⟩

def loneReport (site : Site) (outputDir : Path) : AppReport where
  app := "app"
  report := loneUsageReport site.name
  sourcePath := outputDir.join ⟨"u"⟩
  outputDir := outputDir

def loneChunk (site : Site) : Chunk :=
  ⟨site.path, "app", site.name, "library", loneCharacteristics site.name⟩

def loneUsage : MergedUsage := ⟨Table.singleton "library" (Table.singleton "used" true), "", []⟩

section Lone

variable {tree : FileTree} {site : Site} {slot : Slot} {outputDir : Path}

theorem keepFlags_loneUsage : loneUsage.keepFlags "library" = Table.singleton "used" true := rfl

theorem keepFlags_loneReport (site : Site) (outputDir : Path) :
    (MergedUsage.ofReports "" [loneReport site outputDir]).keepFlags "library" =
      Table.singleton "used" true := by
  rw [MergedUsage.keepFlags, MergedUsage.flagsOf?]
  show ((ExportFlags.join Table.empty _).get? "library").getD _ = _
  rw [ExportFlags.join, Table.get?_unionWith]
  rfl

/-- The file of a site in the output directory is located under its name. -/
theorem locateFile?_site {report : AppReport} (target : Chunk.isTarget site.name = true)
    (absolute : report.outputDir.isAbsolute = true)
    (place : report.outputDir.location = site.directory)
    (isFile : tree.isFile site.path = true) (library : String)
    (characteristics : Characteristics) :
    Chunk.locateFile? tree report library characteristics site.name =
      some ⟨site.path, report.app, site.name, library, characteristics⟩ := by
  rw [Chunk.locateFile?, if_pos target]
  simp only [Chunk.resolvePath?_of_location absolute place, isFile, if_pos]

/-- A library whose files are all there has a chunk for each of them. -/
theorem locateLibrary_sites {report : AppReport} {characteristics : Characteristics}
    {sites : List Site} (files : characteristics.files? = some (sites.map (·.name)))
    (absolute : report.outputDir.isAbsolute = true)
    (there : ∀ site ∈ sites, Chunk.isTarget site.name = true ∧
      report.outputDir.location = site.directory ∧ tree.isFile site.path = true)
    (library : String) (flags : Table String Bool) :
    Chunk.locateLibrary tree report (library, ⟨flags, some characteristics⟩) =
      sites.map fun site => ⟨site.path, report.app, site.name, library, characteristics⟩ := by
  simp only [Chunk.locateLibrary, files]
  rw [List.filterMap_map, ← List.filterMap_eq_map]
  refine List.filterMap_congr fun site member => ?_
  obtain ⟨target, place, isFile⟩ := there site member
  exact locateFile?_site target absolute place isFile library characteristics

/-- A library of one file, which is there, has one chunk. -/
theorem locateLibrary_lone {report : AppReport} {library : String} {flags : Table String Bool}
    (target : Chunk.isTarget site.name = true) (absolute : report.outputDir.isAbsolute = true)
    (place : report.outputDir.location = site.directory)
    (isFile : tree.isFile site.path = true) :
    Chunk.locateLibrary tree report
        (library, ⟨flags, some (loneCharacteristics site.name)⟩) =
      [⟨site.path, report.app, site.name, library, loneCharacteristics site.name⟩] := by
  have files : (loneCharacteristics site.name).files? = some ([site].map (·.name)) := rfl
  refine locateLibrary_sites files absolute (fun other member => ?_) library flags
  rw [List.mem_singleton.mp member]
  exact ⟨target, place, isFile⟩

theorem locate_loneReport (linkFree : tree.LinkFree) (holds : tree.Holds site slot)
    (target : Chunk.isTarget site.name = true) (enters : tree.Enters outputDir)
    (place : outputDir.location = site.directory) :
    Chunk.locate tree [loneReport site outputDir] = [loneChunk site] := by
  have isDirectory : tree.isDirectory (loneReport site outputDir).outputDir = true := by
    rw [FileTree.isDirectory, loneReport, enters.lookup true]
  have isFile : tree.isFile site.path = true := (holds.reaches linkFree).isFile holds.chunk
  rw [Chunk.locate, List.flatMap_singleton, if_pos isDirectory]
  exact (List.flatMap_singleton _ _).trans
    (locateLibrary_lone target enters.absolute place isFile)

theorem begin_loneChunk {merged : MergedUsage}
    (flags : merged.keepFlags "library" = Table.singleton "used" true) (settings : PruneSettings)
    (site : Site) : ((loneChunk site).begin merged settings).2 = .read := by
  have filled : (merged.keepFlags (loneChunk site).library).isEmpty = false := by
    rw [loneChunk, flags]
    rfl
  have entered : (loneChunk site).characteristics.entryModule? = some "main" := rfl
  exact Chunk.begin_read filled entered settings

/-- Pruned with the same source always, when it is accepted, the chunk has it in the end, and its
backup has what was read, when there was none or an empty one. -/
theorem Slot.prune_loneChunk_of_accepts {merged : MergedUsage}
    (flags : merged.keepFlags "library" = Table.singleton "used" true) {settings : PruneSettings}
    (steady : settings.engine = steadySettings.engine) {source : String}
    (approves : settings.accepts site.path source "x" = true)
    (read : slot.chunk = source.toUTF8)
    (accepted : FileTree.refusal? site.directory site.backupName = none)
    (gives : slot.backup = none ∨ slot.backup = some (.file .empty) ∧ source ≠ "") :
    (slot.prune settings.engine merged settings site (loneChunk site)).1 =
      ⟨"x".toUTF8, some (.file source.toUTF8)⟩ := by
  have answered : settings.engine
      ⟨source, ((loneChunk site).begin merged settings).1.config⟩ = .ok sourceAnswer := by
    rw [steady]
    rfl
  rw [prune_of_answer rfl (begin_loneChunk flags settings site) read answered
    read?_sourceAnswer approves, publish_of_gives accepted gives, overwrite]

/-- The same without validation, where everything is accepted. -/
theorem Slot.prune_loneChunk {merged : MergedUsage}
    (flags : merged.keepFlags "library" = Table.singleton "used" true) {source : String}
    (read : slot.chunk = source.toUTF8)
    (accepted : FileTree.refusal? site.directory site.backupName = none)
    (gives : slot.backup = none ∨ slot.backup = some (.file .empty) ∧ source ≠ "") :
    (slot.prune steadySettings.engine merged steadySettings site (loneChunk site)).1 =
      ⟨"x".toUTF8, some (.file source.toUTF8)⟩ :=
  prune_loneChunk_of_accepts flags rfl rfl read accepted gives

end Lone

/-! ## A tree with a single chunk -/

def loneSite : Site where
  directory := ["dist"]
  name := "a.js"
  directoryNames := fun name member => by
    rw [List.mem_singleton.mp member]
    exact ⟨by decide, by decide, by decide⟩
  isName := ⟨by decide, by decide, by decide⟩
  ending := by decide

/-- The site beside that of the chunk, for a second chunk or a link. -/
def besideSite : Site :=
  { loneSite with
    name := "b.js"
    isName := ⟨by decide, by decide, by decide⟩
    ending := by decide }

/-- The directory of the chunk. -/
def loneDir : Path := FileTree.pathOf loneSite.directory

/-- The usage report of the tree, as it is written. -/
def loneUsageText : String :=
  "\x7b\"treeShake\":\x7b\"library\":\x7b\"used\":true,\"chunk_characteristics\":" ++
    "\x7b\"entry_module_id\":\"main\",\"chunk_files\":[\"a.js\"]\x7d\x7d\x7d\x7d"

theorem read?_loneUsageText :
    UsageReport.read? loneUsageText = some (loneUsageReport loneSite.name) := by decide +kernel

def loneTree (content : ByteArray) : FileTree where
  entries :=
    ⟨[(["dist"], .directory), (["dist", "a.js"], .file content),
      (["dist", "u"], .file loneUsageText.toUTF8)], by
        have below : ["a.js"] < ["u"] := by decide
        simpa [Entries.Ordered] using below⟩
  workingDirectory := []

theorem entry?_loneTree (content : ByteArray) {location : Location} {entry : Entry}
    (found : (loneTree content).entries.get? location = some entry) :
    location = ["dist"] ∧ entry = .directory ∨
      location = ["dist", "a.js"] ∧ entry = .file content ∨
      location = ["dist", "u"] ∧ entry = .file loneUsageText.toUTF8 := by
  have member := Table.mem_entries_iff.mpr found
  simpa [loneTree] using member

theorem linkFree_loneTree (content : ByteArray) : (loneTree content).LinkFree := by
  intro location target found
  cases location with
  | nil => cases found
  | cons name rest =>
      rcases entry?_loneTree content found with ⟨-, other⟩ | ⟨-, other⟩ | ⟨-, other⟩
      · cases other
      · cases other
      · cases other

theorem holds_loneTree (content : ByteArray) :
    (loneTree content).Holds loneSite ⟨content, none⟩ :=
  ⟨⟨by decide, rfl, trivial⟩, by decide, rfl, rfl⟩

theorem readText_loneTree (text : String) :
    (loneTree text.toUTF8).readText loneSite.path = .ok text := by
  have holds := holds_loneTree text.toUTF8
  rw [(holds.reaches (linkFree_loneTree _)).readText holds.chunk,
    Text.fromUTF8?_eq_some_iff.mpr rfl]

theorem enters_loneDir (content : ByteArray) : (loneTree content).Enters loneDir := by
  have holds := holds_loneTree content
  have linkFree := linkFree_loneTree content
  exact FileTree.enters_of_lookup linkFree (Path.isAbsolute_pathOf _)
    (FileTree.lookup_directory loneSite.directoryNames holds.opened holds.accepted)

/-! ## Output directories with points in their paths

One directory has many paths, of any length: each point between slashes makes a path longer and
changes nothing else. Chunks are located by clean paths, but a walk keeps the points, so it may
not reach what was located. -/

def dots : Nat → String
  | 0 => ""
  | count + 1 => "./" ++ dots count

/-- The directory of the single chunk, with some points on the way. -/
def dottedDir (count : Nat) : Path := ⟨"/" ++ dots count ++ "dist"⟩

section Dotted

variable (count : Nat)

theorem utf8ByteSize_dots : (dots count).utf8ByteSize = 2 * count := by
  induction count with
  | zero => rfl
  | succ count inductionHypothesis =>
      have two : String.utf8ByteSize "./" = 2 := by decide
      rw [dots, String.utf8ByteSize_append, inductionHypothesis, two]
      omega

theorem mem_dots {char : Char} (member : char ∈ (dots count).toList) : char = '.' ∨ char = '/' := by
  induction count with
  | zero => exact absurd member List.not_mem_nil
  | succ count inductionHypothesis =>
      rw [dots, String.toList_append, List.mem_append] at member
      rcases member with member | member
      · simpa using member
      · exact inductionHypothesis member

theorem splitOn_dots {rest : List Char} :
    ((dots count).toList ++ rest).splitOn '/' =
      List.replicate count ['.'] ++ rest.splitOn '/' := by
  induction count with
  | zero => rfl
  | succ count inductionHypothesis =>
      rw [dots, String.toList_append]
      show ('.' :: '/' :: ((dots count).toList ++ rest)).splitOn '/' = _
      rw [List.splitOn_cons_eq_if_modifyHead, if_neg (by decide),
        List.splitOn_cons_eq_if_modifyHead, if_pos (by decide), inductionHypothesis]
      rfl

theorem utf8ByteSize_dottedDir : (dottedDir count).text.utf8ByteSize = 2 * count + 5 := by
  have slash : String.utf8ByteSize "/" = 1 := by decide
  have name : String.utf8ByteSize "dist" = 4 := by decide
  rw [dottedDir, String.utf8ByteSize_append, String.utf8ByteSize_append, utf8ByteSize_dots,
    slash, name]
  omega

theorem segments_dottedDir :
    (dottedDir count).segments = "" :: (List.replicate count "." ++ ["dist"]) := by
  have text : (dottedDir count).text.toList = '/' :: ((dots count).toList ++ "dist".toList) := by
    rw [dottedDir, String.toList_append, String.toList_append]
    rfl
  rw [Path.segments, text, List.splitOn_cons_eq_if_modifyHead, if_pos (by decide), splitOn_dots,
    List.splitOn_eq_singleton (by decide)]
  simp

theorem isAbsolute_dottedDir : (dottedDir count).isAbsolute = true := by
  refine Path.isAbsolute_iff.mpr ⟨(dots count).toList ++ "dist".toList, ?_⟩
  rw [dottedDir, String.toList_append, String.toList_append]
  rfl

theorem nul_not_mem_dottedDir : '\x00' ∉ (dottedDir count).text.toList := by
  rw [dottedDir, String.toList_append, String.toList_append, List.mem_append, List.mem_append]
  rintro ((found | found) | found)
  · exact absurd found (by decide)
  · rcases mem_dots count found with point | slash
    · exact absurd point (by decide)
    · exact absurd slash (by decide)
  · exact absurd found (by decide)

theorem location_dottedDir : (dottedDir count).location = ["dist"] := by
  have idle : ∀ segment ∈ "" :: List.replicate count ".", Path.isIdle segment = true := by
    intro segment member
    rcases List.mem_cons.mp member with rfl | member
    · decide
    · rw [List.eq_of_mem_replicate member]
      decide
  rw [Path.location, segments_dottedDir, ← List.cons_append, Path.follow_append,
    Path.follow_idle idle]
  decide

theorem text_spelled_dottedDir {name : String} (proper : Path.IsName name) :
    ((dottedDir count).spelled [name]).text = (dottedDir count).text ++ "/" ++ name := by
  have named : Text.endsWith (dottedDir count).text "dist" = true := Text.endsWith_append _ _
  have nonempty : (dottedDir count).text ≠ "" := by
    intro empty
    rw [empty] at named
    exact absurd named (by decide)
  have noSlash : Text.endsWith (dottedDir count).text "/" = false := by
    rw [Bool.eq_false_iff]
    intro ends
    have last := (Text.getLast?_of_endsWith named (by decide)).symm.trans
      (Text.getLast?_of_endsWith ends (by decide))
    exact absurd last (by decide)
  rw [Path.spelled, List.foldl_cons, List.foldl_nil, Path.join, Path.isAbsolute_name proper,
    if_neg Bool.false_ne_true, noSlash, Bool.or_false, if_neg (by simp [nonempty])]

end Dotted

/-! ## The application of the single chunk -/

def loneApp (count : Nat) : Application := ⟨"app", dottedDir count⟩

/-- The application of the single chunk, as it is given to a run. -/
def loneSpec : AppSpec := ⟨"app", some (dottedDir 0)⟩

theorem application_loneSpec (root : Path) : loneSpec.application root = loneApp 0 := by
  show (⟨"app", root.join (dottedDir 0)⟩ : Application) = ⟨"app", dottedDir 0⟩
  rw [Path.join, if_pos (isAbsolute_dottedDir 0)]

section Lone

variable {count : Nat} {content : ByteArray}

theorem enters_dottedDir {tree : FileTree} (isDirectory : tree.entry? ["dist"] = some .directory)
    (short : 2 * count + 5 < FileTree.pathBound) : tree.Enters (dottedDir count) := by
  refine ⟨isAbsolute_dottedDir count, ?_, ?_, ?_⟩
  · rw [Bool.eq_false_iff, Ne, List.contains_iff_mem]
    exact nul_not_mem_dottedDir count
  · rwa [utf8ByteSize_dottedDir]
  · have idle : ∀ points : List String, (∀ segment ∈ points, Path.isIdle segment = true) →
        tree.Passes [] points [] := by
      intro points
      induction points with
      | nil => exact fun _ => rfl
      | cons point rest inductionHypothesis =>
          intro idle
          rw [FileTree.Passes, if_pos (idle point List.mem_cons_self)]
          exact inductionHypothesis fun segment member =>
            idle segment (List.mem_cons_of_mem _ member)
    rw [segments_dottedDir, location_dottedDir, ← List.cons_append, FileTree.passes_append]
    refine ⟨[], idle _ ?_, ?_⟩
    · intro segment member
      rcases List.mem_cons.mp member with rfl | member
      · decide
      · rw [List.eq_of_mem_replicate member]
        decide
    · have busy : Path.isIdle "dist" = false := by decide
      rw [FileTree.Passes, busy, if_neg Bool.false_ne_true, if_neg (by decide)]
      exact ⟨by decide, isDirectory, rfl⟩

/-- The report of an application whose output directory has a usage report. -/
theorem loadReports_of_text {tree : FileTree} (linkFree : tree.LinkFree)
    (isDirectory : tree.entry? ["dist"] = some .directory) {text : String}
    (found : tree.entry? ["dist", "u"] = some (.file text.toUTF8)) {report : UsageReport}
    (parsed : UsageReport.read? text = some report) (short : 2 * count + 7 < FileTree.pathBound) :
    loadReports tree "u" [loneApp count] =
      .ok [⟨"app", report, (dottedDir count).join ⟨"u"⟩, dottedDir count⟩] := by
  have enters : tree.Enters (dottedDir count) := enters_dottedDir isDirectory (by omega)
  have proper : Path.IsName "u" := ⟨by decide, by decide, by decide⟩
  have spelled : ((dottedDir count).spelled ([] ++ ["u"])).text =
      (dottedDir count).text ++ "/" ++ "u" := text_spelled_dottedDir count proper
  have fits : ((dottedDir count).spelled ([] ++ ["u"])).text.utf8ByteSize < FileTree.pathBound := by
    have slash : String.utf8ByteSize "/" = 1 := by decide
    have name : String.utf8ByteSize "u" = 1 := by decide
    rw [spelled, String.utf8ByteSize_append, String.utf8ByteSize_append, utf8ByteSize_dottedDir,
      slash, name]
    exact short
  have noNul : ((dottedDir count).spelled ([] ++ ["u"])).text.toList.contains '\x00' = false := by
    rw [Bool.eq_false_iff, Ne, List.contains_iff_mem]
    intro found
    rcases Path.mem_spelled found with found | found | ⟨name, member, found⟩
    · exact nul_not_mem_dottedDir count found
    · exact absurd found (by decide)
    · rw [List.mem_singleton.mp member] at found
      exact absurd found (by decide)
  have reaches := FileTree.reaches_spelled linkFree enters
    (fun _ absurdity => absurd absurdity List.not_mem_nil) proper trivial (by decide) noNul fits
  rw [location_dottedDir] at reaches
  have path : (dottedDir count).spelled ([] ++ ["u"]) = (dottedDir count).join ⟨"u"⟩ := rfl
  rw [path] at reaches
  have there : tree.entry? (["dist"] ++ [] ++ ["u"]) = some (.file text.toUTF8) := found
  have read : tree.readReport ((dottedDir count).join ⟨"u"⟩) = .ok report := by
    rw [FileTree.readReport, reaches.readText there, Text.fromUTF8?_eq_some_iff.mpr rfl]
    simp only [parsed]
  have loaded : (loneApp count).load? tree "u" =
      some ⟨"app", report, (dottedDir count).join ⟨"u"⟩, dottedDir count⟩ := by
    simp only [Application.load?, loneApp, reaches.isFile there, read, if_true]
  rw [loadReports, List.filterMap_cons_some loaded, List.filterMap_nil]

theorem loadReports_loneTree (short : 2 * count + 7 < FileTree.pathBound) :
    loadReports (loneTree content) "u" [loneApp count] =
      .ok [loneReport loneSite (dottedDir count)] :=
  loadReports_of_text (linkFree_loneTree content) rfl rfl read?_loneUsageText short

theorem isAbsolute_loneApp (count : Nat) :
    ∀ app ∈ [loneApp count], app.outputDir.isAbsolute = true := by
  intro app member
  rw [List.mem_singleton.mp member]
  exact isAbsolute_dottedDir count

theorem entriesBelow_loneTree (short : 2 * count + 5 < FileTree.pathBound) {path : Path}
    {entry : Entry}
    (listed : (path, entry) ∈ (loneTree content).entriesBelow (dottedDir count)) :
    entry ≠ .directory ∧ (path = (dottedDir count).spelled ["a.js"] ∨
      path = (dottedDir count).spelled ["u"]) := by
  have enters : (loneTree content).Enters (dottedDir count) := enters_dottedDir rfl short
  obtain ⟨names, nonempty, rfl, found⟩ := (FileTree.mem_entriesBelow_iff enters).mp listed
  rw [location_dottedDir] at found
  rcases entry?_loneTree content found with ⟨place, -⟩ | ⟨place, rfl⟩ | ⟨place, rfl⟩
  · exact absurd (List.cons.inj place).2 nonempty
  · exact ⟨nofun, Or.inl (congrArg _ (List.cons.inj place).2)⟩
  · exact ⟨nofun, Or.inr (congrArg _ (List.cons.inj place).2)⟩

end Lone

end ChunkPrune
