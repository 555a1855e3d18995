import ChunkPrune.Proofs.Chunk.Slot
import ChunkPrune.Proofs.Path.Climbs

/-!
# Chunks inside their output directory

The path of a file name is taken when it has the steps of the cleaned output directory and more.
For an output directory that does not climb, what comes after them is names, so the path lies
strictly inside. For one that climbs it may be further steps upwards: then the path lies outside
and is taken all the same.
-/

namespace ChunkPrune.Chunk

variable {outputDir path : Path} {fileName : String}

theorem resolvePath?_eq_some_iff :
    resolvePath? outputDir fileName = some path ↔
      path = (outputDir.join ⟨fileName⟩).clean ∧ path.isUnder outputDir.clean = true ∧
        path.sameSteps outputDir.clean = false := by
  simp only [resolvePath?]
  split
  next taken =>
    have both : (outputDir.join ⟨fileName⟩).clean.isUnder outputDir.clean = true ∧
        (outputDir.join ⟨fileName⟩).clean.sameSteps outputDir.clean = false := by
      simpa using taken
    constructor
    · intro same
      cases same
      exact ⟨rfl, both⟩
    · rintro ⟨rfl, -⟩
      rfl
  next refused =>
    constructor
    · intro same
      cases same
    · rintro ⟨rfl, under, apart⟩
      simp [under, apart] at refused

/-- In an output directory that does not climb, a file name that is taken stays inside. -/
theorem strictlyInside_of_resolvePath? (level : ¬ outputDir.Climbs)
    (resolved : resolvePath? outputDir fileName = some path) :
    path.StrictlyInside outputDir := by
  obtain ⟨rfl, under, apart⟩ := resolvePath?_eq_some_iff.mp resolved
  exact Path.strictlyInside_of_isUnder level under apart

/-- From an output directory that climbs, a name above it is taken. -/
theorem exists_resolvePath?_of_climbs (climbs : outputDir.Climbs) {name : String}
    (isName : Path.IsName name) :
    ∃ path, resolvePath? outputDir (".." ++ "/" ++ name) = some path ∧
      ¬ path.StrictlyInside outputDir := by
  have steps := Path.components_climb climbs isName
  refine ⟨_, resolvePath?_eq_some_iff.mpr ⟨rfl, ?_, ?_⟩, ?_⟩
  · rw [Path.isUnder, steps, List.isPrefixOf_iff_prefix]
    exact List.prefix_append _ _
  · rw [Path.sameSteps, steps]
    simp
  · rintro ⟨names, -, -, inside⟩
    rw [steps] at inside
    cases names with
    | nil => simp at inside
    | cons first rest => cases (List.cons.inj (List.append_cancel_left inside)).1

/-- A file name that is taken always stays inside the output directory, unless the output
directory climbs. So a located chunk lies inside the output directory of its application, when
this one does not climb. -/
theorem strictlyInside_iff_not_climbs (outputDir : Path) :
    ((∀ fileName path, resolvePath? outputDir fileName = some path →
        path.StrictlyInside outputDir) ↔ ¬ outputDir.Climbs) ∧
      ∀ tree reports, ∀ chunk ∈ locate tree reports, ∃ report ∈ reports,
        chunk.app = report.app ∧ resolvePath? report.outputDir chunk.fileName = some chunk.path ∧
          (¬ report.outputDir.Climbs → chunk.path.StrictlyInside report.outputDir) := by
  refine ⟨⟨?_, ?_⟩, ?_⟩
  · intro inside climbs
    have isName : Path.IsName "a.js" := ⟨by decide, by decide, by decide⟩
    obtain ⟨path, resolved, outside⟩ := exists_resolvePath?_of_climbs climbs isName
    exact outside (inside _ path resolved)
  · exact fun level fileName path => strictlyInside_of_resolvePath? level
  · intro tree reports chunk member
    obtain ⟨report, reportMember, record, source⟩ := from_of_mem_locate member
    exact ⟨report, reportMember, source.app, source.resolved, fun level =>
      strictlyInside_of_resolvePath? level source.resolved⟩

example : (⟨"a/../.."⟩ : Path).Climbs ∧
    resolvePath? ⟨"a/../.."⟩ "../a.js" = some ⟨"../../a.js"⟩ := by decide

end ChunkPrune.Chunk
