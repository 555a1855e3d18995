import ChunkPrune.Proofs.Chunk.Apart
import ChunkPrune.Proofs.Path.FileName

/-!
# Chunks, backups and source maps

The name of a located chunk is the last name of its listed file name, whatever cleaning does to
the rest. So it ends as the names of chunks do, its backup and its source map end in other
characters, and no chunk, backup or map has the path of another one of a different kind.
-/

namespace ChunkPrune

namespace Path

theorem sameSteps_eq_false {path other : Path} {name otherName : String}
    (named : path.fileName? = some name) (otherNamed : other.fileName? = some otherName)
    (apart : name.toList.getLast? ≠ otherName.toList.getLast?) : path.sameSteps other = false := by
  rw [Bool.eq_false_iff, sameSteps, Ne, beq_iff_eq]
  intro same
  have names : path.fileName? = other.fileName? := by rw [fileName?, same, fileName?]
  rw [named, otherNamed] at names
  exact apart (by rw [Option.some.inj names])

/-- Paths that end in names are told apart as well with one text after both of them. -/
theorem sameSteps_append_iff {path other : Path} {name otherName suffix : String}
    (endsIn : path.EndsIn name) (otherEndsIn : other.EndsIn otherName) (long : 2 < suffix.length)
    (noSlash : '/' ∉ suffix.toList) :
    (path.append suffix).sameSteps (other.append suffix) = true ↔ path.sameSteps other = true := by
  obtain ⟨front, steps, longer⟩ := endsIn.exists_components_append long noSlash
  obtain ⟨otherFront, otherSteps, otherLonger⟩ :=
    otherEndsIn.exists_components_append long noSlash
  rw [sameSteps, sameSteps, beq_iff_eq, beq_iff_eq, steps, otherSteps, longer, otherLonger,
    List.append_singleton_inj, List.append_singleton_inj, Component.name.injEq,
    Component.name.injEq, String.append_left_inj]

theorem append_left_inj {path other : Path} (suffix : String) :
    path.append suffix = other.append suffix ↔ path = other := by
  rw [append, append, Path.mk.injEq, String.append_left_inj]
  exact ⟨fun same => by cases path; cases other; cases same; rfl, congrArg Path.text⟩

end Path

namespace Chunk

variable {tree : FileTree} {reports : List AppReport} {chunk other : Chunk} {name : String}

/-- The listed file name and the path of a chunk end in one name, that of a chunk. -/
structure Named (chunk : Chunk) (name : String) : Prop where
  listed : Path.EndsIn ⟨chunk.fileName⟩ name
  path : chunk.path.EndsIn name
  ending : Text.endsWith name extension = true
  derived : ∀ suffix ∈ derivedSuffixes, Text.endsWith name suffix = false

theorem exists_named (member : chunk ∈ locate tree reports) : ∃ name, chunk.Named name := by
  obtain ⟨report, -, record, source⟩ := from_of_mem_locate member
  obtain ⟨ends, underived⟩ := Bool.and_eq_true_iff.mp source.target
  have fileEnds : Text.endsWith (Path.mk chunk.fileName).text extension = true := ends
  obtain ⟨initial, name, segments, ending⟩ := Path.exists_last_segment fileEnds (by decide)
  have segment : name ∈ (Path.mk chunk.fileName).segments := by
    rw [segments]
    exact List.mem_append_right _ (List.mem_singleton_self _)
  have noSlash := Path.slash_not_mem_segment segment
  have isName : Path.IsName name := Path.isName_of_endsWith ending (by decide) noSlash
  have listed : Path.EndsIn ⟨chunk.fileName⟩ name := ⟨isName, initial, segments⟩
  refine ⟨name, listed, ?_, ending, ?_⟩
  · rw [(resolvePath?_eq_some_iff.mp source.resolved).1]
    exact (listed.join _).clean
  · intro suffix suffixMember
    rw [Bool.eq_false_iff]
    intro nameEnds
    obtain ⟨front, text⟩ := listed.exists_text
    have wholeEnds : Text.endsWith chunk.fileName suffix = true := by
      have shape : chunk.fileName = front ++ name := text
      rw [shape]
      exact Text.endsWith_of_append nameEnds
    rw [Bool.not_eq_true', Bool.eq_false_iff] at underived
    exact underived (List.any_eq_true.mpr ⟨suffix, suffixMember, wholeEnds⟩)

namespace Named

theorem fileName?_path (named : chunk.Named name) : chunk.path.fileName? = some name :=
  named.path.fileName?_eq

theorem fileName?_append (named : chunk.Named name) {suffix : String} (long : 2 < suffix.length)
    (noSlash : '/' ∉ suffix.toList) :
    (chunk.path.append suffix).fileName? = some (name ++ suffix) := by
  obtain ⟨front, -, longer⟩ := named.path.exists_components_append long noSlash
  rw [Path.fileName?, longer, List.getLast?_concat]

theorem getLast?_name (named : chunk.Named name) : name.toList.getLast? = some 's' :=
  (Text.getLast?_of_endsWith named.ending (by decide)).trans (by decide)

end Named

theorem getLast?_append (name : String) {suffix : String} (filled : suffix.toList ≠ []) :
    (name ++ suffix).toList.getLast? = suffix.toList.getLast? :=
  Text.getLast?_of_endsWith (Text.endsWith_append name suffix) filled

/-- A backup belongs to the chunk that it was made from. -/
theorem Named.ofBackup?_backupPath (named : chunk.Named name) :
    ofBackup? (backupPath chunk.path) = some chunk.path := by
  have cut : Text.stripEnd? (backupPath chunk.path).text backupSuffix = some chunk.path.text := by
    have shape : (backupPath chunk.path).text.toList =
        chunk.path.text.toList ++ backupSuffix.toList := String.toList_append
    rw [Text.stripEnd?, Text.dropEnd?_eq_some_iff.mpr shape, Option.map_some,
      String.ofList_toList]
  have ends : Text.endsWith chunk.path.text extension = true := by
    obtain ⟨front, text⟩ := named.path.exists_text
    rw [text]
    exact Text.endsWith_of_append named.ending
  rw [ofBackup?, cut]
  exact if_pos ends

/-- Chunks, backups and source maps never collide. The path of a located chunk has the last name
of its listed file name, which ends as the names of chunks do and not as that of an optimized copy;
its backup belongs to it. Compared by their components, and so as texts too, no chunk has the path
of a backup or of a map, no backup has that of a map, and two backups have one path exactly when
their chunks have. -/
theorem locate_companions (tree : FileTree) (reports : List AppReport) :
    (∀ chunk ∈ locate tree reports,
      (∃ name, Path.fileName? ⟨chunk.fileName⟩ = some name ∧
        chunk.path.fileName? = some name ∧ Text.endsWith name ".js" = true ∧
        Text.endsWith name ".optimized.js" = false) ∧
      ofBackup? (backupPath chunk.path) = some chunk.path) ∧
    ∀ chunk ∈ locate tree reports, ∀ other ∈ locate tree reports,
      chunk.path.sameSteps (backupPath other.path) = false ∧
      chunk.path.sameSteps other.mapPath = false ∧
      (backupPath chunk.path).sameSteps other.mapPath = false ∧
      ((backupPath chunk.path).sameSteps (backupPath other.path) = true ↔
        chunk.path.sameSteps other.path = true) ∧
      (backupPath chunk.path = backupPath other.path ↔ chunk.path = other.path) := by
  constructor
  · intro chunk member
    obtain ⟨name, named⟩ := exists_named member
    refine ⟨⟨name, named.listed.fileName?_eq, named.fileName?_path, named.ending, ?_⟩,
      named.ofBackup?_backupPath⟩
    exact named.derived ".optimized.js" (by decide)
  · intro chunk member other otherMember
    obtain ⟨name, named⟩ := exists_named member
    obtain ⟨otherName, otherNamed⟩ := exists_named otherMember
    have backup : (backupPath chunk.path).fileName? = some (name ++ backupSuffix) :=
      named.fileName?_append (by decide) (by decide)
    have otherBackup : (backupPath other.path).fileName? = some (otherName ++ backupSuffix) :=
      otherNamed.fileName?_append (by decide) (by decide)
    have otherMap : other.mapPath.fileName? = some (otherName ++ mapSuffix) :=
      otherNamed.fileName?_append (by decide) (by decide)
    -- chunks, backups and maps end in an s, an l and a p
    have last := named.getLast?_name
    have backupLast : ∀ name : String, (name ++ backupSuffix).toList.getLast? = some 'l' :=
      fun name => (getLast?_append name (by decide)).trans (by decide)
    have mapLast : ∀ name : String, (name ++ mapSuffix).toList.getLast? = some 'p' :=
      fun name => (getLast?_append name (by decide)).trans (by decide)
    refine ⟨?_, ?_, ?_, ?_, Path.append_left_inj backupSuffix⟩
    · apply Path.sameSteps_eq_false named.fileName?_path otherBackup
      rw [last, backupLast]
      decide
    · apply Path.sameSteps_eq_false named.fileName?_path otherMap
      rw [last, mapLast]
      decide
    · apply Path.sameSteps_eq_false backup otherMap
      rw [backupLast, mapLast]
      decide
    · exact Path.sameSteps_append_iff named.path otherNamed.path (by decide) (by decide)

/-- The single chunk as a report lists it that spells it in two ways. -/
def twiceChunk (fileName : String) : Chunk :=
  ⟨loneSite.path, "app", fileName, "library",
    ⟨[("chunk_files", .array [.string "a.js", .string "./a.js"])]⟩⟩

theorem twiceChunk_mem_locate {fileName : String} (listed : fileName ∈ ["a.js", "./a.js"])
    (target : isTarget fileName = true)
    (resolved : resolvePath? loneDir fileName = some loneSite.path) :
    twiceChunk fileName ∈ locate (loneTree "a".toUTF8) [twiceReport] := by
  have isDirectory : (loneTree "a".toUTF8).isDirectory twiceReport.outputDir = true :=
    FileTree.isDirectory_iff.mpr ⟨_, (enters_loneDir "a".toUTF8).lookup true⟩
  have item : Json.string fileName ∈ [Json.string "a.js", .string "./a.js"] :=
    List.mem_map_of_mem listed
  have found : Listed twiceReport "library" (twiceChunk fileName).characteristics fileName :=
    ⟨⟨_, List.mem_singleton_self _, rfl⟩, ⟨_, rfl, item⟩⟩
  refine found.mem_locate (List.mem_singleton_self _) isDirectory ?_
  exact locateFile?_eq_some_iff.mpr ⟨_, spells_loneTree _ target resolved, rfl⟩

/-- The two chunks of the report have one backup, and it is neither of them. -/
theorem locate_companions_twiceReport :
    twiceChunk "a.js" ∈ locate (loneTree "a".toUTF8) [twiceReport] ∧
      twiceChunk "./a.js" ∈ locate (loneTree "a".toUTF8) [twiceReport] ∧
      (∃ name, Path.fileName? ⟨"./a.js"⟩ = some name ∧
        (twiceChunk "./a.js").path.fileName? = some name ∧
        Text.endsWith name ".js" = true ∧ Text.endsWith name ".optimized.js" = false) ∧
      (twiceChunk "a.js").path.sameSteps (backupPath (twiceChunk "./a.js").path) = false ∧
      backupPath (twiceChunk "a.js").path = backupPath (twiceChunk "./a.js").path := by
  have plain : twiceChunk "a.js" ∈ locate (loneTree "a".toUTF8) [twiceReport] :=
    twiceChunk_mem_locate (by decide) (by decide) (by decide)
  have dotted : twiceChunk "./a.js" ∈ locate (loneTree "a".toUTF8) [twiceReport] :=
    twiceChunk_mem_locate (by decide) (by decide) (by decide)
  obtain ⟨each, pairs⟩ := locate_companions (loneTree "a".toUTF8) [twiceReport]
  obtain ⟨noBackup, -, -, -, backups⟩ := pairs _ plain _ dotted
  exact ⟨plain, dotted, (each _ dotted).1, noBackup, backups.mpr rfl⟩

end Chunk

end ChunkPrune
