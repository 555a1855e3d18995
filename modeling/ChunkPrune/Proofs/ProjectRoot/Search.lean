import ChunkPrune.ProjectRoot
import ChunkPrune.Proofs.FileTree.Spelled
import ChunkPrune.Proofs.Path.Upwards

/-!
# The search for a repository

The search looks for an entry `.git` below a path. Where there is none it goes on with the path
without its last step, as long as there is one. That path is shorter, so the search ends. Started
from a path that denotes a directory, it looks at directories only: at those that the first moves
of the path lead to, from all of the moves down to none.
-/

namespace ChunkPrune

namespace ProjectRoot

variable {tree : FileTree} {path parent : Path} {result : Except Failure Path}

/-- The search from a path upwards, look by look. -/
inductive Search (tree : FileTree) : Path → Except Failure Path → Prop
  | found {path : Path} (holds : isRepository tree path = true) : Search tree path (.ok path)
  | up {path parent : Path} {result : Except Failure Path}
      (passed : isRepository tree path = false) (step : path.parent? = some parent)
      (further : Search tree parent result) : Search tree path result
  | top {path : Path} (passed : isRepository tree path = false) (last : path.parent? = none) :
      Search tree path (.error .noRepository)

/-! ## The way up -/

/-- More fuel than the path has characters changes nothing. -/
theorem ancestors_eq_of_lt {fuel more : Nat} (enough : path.text.length < fuel)
    (further : path.text.length < more) : ancestors fuel path = ancestors more path := by
  induction fuel generalizing path more with
  | zero => exact absurd enough (Nat.not_lt_zero _)
  | succ fuel inductionHypothesis =>
      cases more with
      | zero => exact absurd further (Nat.not_lt_zero _)
      | succ more =>
          rw [ancestors, ancestors]
          cases step : path.parent? with
          | none => rfl
          | some parent =>
              have shorter := Path.length_of_parent? step
              have same : ancestors fuel parent = ancestors more parent :=
                inductionHypothesis (by omega) (by omega)
              simp only [same]

theorem wayUp_of_parent? (step : path.parent? = some parent) :
    wayUp path = path :: wayUp parent := by
  have shorter := Path.length_of_parent? step
  have same : ancestors path.text.length parent = wayUp parent :=
    ancestors_eq_of_lt shorter (Nat.lt_succ_self _)
  rw [wayUp, ancestors]
  simp only [step, same]

theorem wayUp_of_top (last : path.parent? = none) : wayUp path = [path] := by
  rw [wayUp, ancestors]
  simp only [last]

theorem enclosing_of_isRepository (holds : isRepository tree path = true) :
    enclosing tree path = .ok path := by
  obtain ⟨above, way⟩ : ∃ above, wayUp path = path :: above := by
    cases step : path.parent? with
    | none => exact ⟨[], wayUp_of_top step⟩
    | some parent => exact ⟨wayUp parent, wayUp_of_parent? step⟩
  rw [enclosing, way, List.find?_cons_of_pos holds]

theorem enclosing_of_parent? (passed : isRepository tree path = false)
    (step : path.parent? = some parent) : enclosing tree path = enclosing tree parent := by
  have absent : ¬ isRepository tree path = true := Bool.eq_false_iff.mp passed
  rw [enclosing, wayUp_of_parent? step, List.find?_cons_of_neg absent, enclosing]

theorem enclosing_of_top (passed : isRepository tree path = false)
    (last : path.parent? = none) : enclosing tree path = .error .noRepository := by
  have absent : ¬ isRepository tree path = true := Bool.eq_false_iff.mp passed
  rw [enclosing, wayUp_of_top last, List.find?_cons_of_neg absent, List.find?_nil]

/-- The search ends for every path, since the paths on the way up get shorter. -/
theorem search_enclosing (tree : FileTree) (path : Path) :
    Search tree path (enclosing tree path) := by
  by_cases holds : isRepository tree path = true
  · rw [enclosing_of_isRepository holds]
    exact .found holds
  · have passed := Bool.eq_false_iff.mpr holds
    cases step : path.parent? with
    | none =>
        rw [enclosing_of_top passed step]
        exact .top passed step
    | some parent =>
        have shorter := Path.length_of_parent? step
        rw [enclosing_of_parent? passed step]
        exact .up passed step (search_enclosing tree parent)
termination_by path.text.length

theorem Search.enclosing_eq (search : Search tree path result) : enclosing tree path = result := by
  induction search with
  | found holds => exact enclosing_of_isRepository holds
  | up passed step further inductionHypothesis =>
      exact (enclosing_of_parent? passed step).trans inductionHypothesis
  | top passed last => exact enclosing_of_top passed last

theorem search_iff : Search tree path result ↔ enclosing tree path = result := by
  constructor
  · exact Search.enclosing_eq
  · intro same
    exact same ▸ search_enclosing tree path

end ProjectRoot

/-! ## Directories on the way up -/

namespace FileTree

variable {tree : FileTree} {path parent : Path} {here there : Location}

theorem passes_moves :
    tree.Passes here path.moves there ↔ tree.Passes here path.segments there := by
  rw [Path.moves]
  induction path.segments generalizing here with
  | nil => exact Iff.rfl
  | cons segment rest inductionHypothesis =>
      by_cases idle : Path.isIdle segment = true
      · rw [List.filter_cons_of_neg (by simp [idle]), Passes, if_pos idle]
        exact inductionHypothesis
      · rw [List.filter_cons_of_pos (by simp [idle]), Passes, Passes, if_neg idle, if_neg idle]
        split
        · exact inductionHypothesis
        · simp only [inductionHypothesis]

theorem Enters.of_parent? (enters : tree.Enters path) (step : path.parent? = some parent) :
    tree.Enters parent := by
  obtain ⟨absolute, last, moves⟩ := Path.moves_of_parent? enters.absolute step
  obtain ⟨rest, -, text⟩ := Path.exists_text_of_parent? step
  have noNul := enters.noNul
  have short := enters.short
  rw [text, String.toList_append, List.contains_append, Bool.or_eq_false_iff] at noNul
  rw [text, String.utf8ByteSize_append] at short
  refine ⟨absolute, noNul.1, by omega, ?_⟩
  have passes := passes_moves.mpr enters.passes
  rw [moves, passes_append] at passes
  obtain ⟨middle, first, -⟩ := passes
  have passesParent := passes_moves.mp first
  have same : middle = parent.location := passesParent.eq_follow
  exact same ▸ passesParent

end FileTree

namespace ProjectRoot

variable {tree : FileTree} {path parent : Path} {result : Except Failure Path}
  {moves : List String}

/-- A directory has an entry `.git`. -/
def HasGit (tree : FileTree) (directory : Location) : Prop :=
  tree.entry? (directory ++ [".git"]) ≠ none

/-- The path of `.git` below a path is not too long to be looked at. -/
def HasRoom (path : Path) : Prop :=
  (path.join ⟨".git"⟩).text.utf8ByteSize < FileTree.pathBound

instance (path : Path) : Decidable (HasRoom path) :=
  inferInstanceAs (Decidable (_ < FileTree.pathBound))

theorem isName_git : Path.IsName ".git" := ⟨by decide, by decide, by decide⟩

theorem text_join_git (path : Path) :
    ∃ slash, (slash = "" ∨ slash = "/") ∧
      (path.join ⟨".git"⟩).text = path.text ++ slash ++ ".git" := by
  rw [Path.join, Path.isAbsolute_name isName_git, if_neg Bool.false_ne_true]
  split
  · exact ⟨"", Or.inl rfl, by rw [String.append_empty]⟩
  · exact ⟨"/", Or.inr rfl, rfl⟩

theorem HasRoom.of_parent? (room : HasRoom path) (step : path.parent? = some parent) :
    HasRoom parent := by
  obtain ⟨rest, nonempty, text⟩ := Path.exists_text_of_parent? step
  obtain ⟨slash, -, joined⟩ := text_join_git path
  obtain ⟨parentSlash, single, parentJoined⟩ := text_join_git parent
  have positive : rest.utf8ByteSize ≠ 0 :=
    fun zero => nonempty (String.utf8ByteSize_eq_zero_iff.mp zero)
  have small : parentSlash.utf8ByteSize ≤ 1 := by
    rcases single with rfl | rfl
    · decide
    · decide
  rw [HasRoom, joined, text] at room
  rw [HasRoom, parentJoined]
  simp only [String.utf8ByteSize_append] at room ⊢
  omega

/-- The look below a path is a look at the directory that the path denotes, if there is room. -/
theorem isRepository_iff (linkFree : tree.LinkFree) (enters : tree.Enters path) :
    isRepository tree path = true ↔ HasGit tree path.location ∧ HasRoom path := by
  have absolute := Path.isAbsolute_join ⟨".git"⟩ enters.absolute
  have noNul : (path.join ⟨".git"⟩).text.toList.contains '\x00' = false := by
    obtain ⟨slash, single, joined⟩ := text_join_git path
    have plain : (slash ++ ".git").toList.contains '\x00' = false := by
      rcases single with rfl | rfl
      · decide
      · decide
    rw [joined, String.append_assoc, String.toList_append, List.contains_append, enters.noNul,
      plain]
    rfl
  by_cases room : HasRoom path
  · have reaches : tree.Reaches (path.join ⟨".git"⟩) (path.location ++ [".git"]) := by
      have spelled : tree.Reaches (path.spelled ([] ++ [".git"]))
          (path.location ++ [] ++ [".git"]) :=
        FileTree.reaches_spelled linkFree enters (fun _ absurdity => nomatch absurdity) isName_git
          trivial (by decide) noNul room
      simpa [Path.spelled] using spelled
    rw [isRepository, FileTree.pathExists, FileTree.lookup, reaches true, FileTree.placeAt, HasGit]
    cases tree.entry? (path.location ++ [".git"]) with
    | none => simp
    | some entry => simp [room]
  · have long : FileTree.pathBound ≤ (path.join ⟨".git"⟩).text.utf8ByteSize := Nat.not_lt.mp room
    have refused : tree.resolve true (path.join ⟨".git"⟩) = .error .nameTooLong := by
      rw [FileTree.resolve, if_neg (by rw [noNul]; exact Bool.false_ne_true),
        if_neg (Path.text_ne_empty absolute), if_pos long]
    rw [isRepository, FileTree.pathExists, FileTree.lookup, refused]
    simp [room]

/-- A path on the way up denotes a directory too, and is told by the first moves. -/
theorem enters_of_mem_wayUp {start : Path} (enters : tree.Enters start)
    (member : path ∈ wayUp start) : tree.Enters path ∧ path.moves <+: start.moves := by
  cases step : start.parent? with
  | none =>
      rw [wayUp_of_top step] at member
      rw [List.mem_singleton.mp member]
      exact ⟨enters, List.prefix_rfl⟩
  | some parent =>
      have shorter := Path.length_of_parent? step
      obtain ⟨-, last, moves⟩ := Path.moves_of_parent? enters.absolute step
      rw [wayUp_of_parent? step] at member
      rcases List.mem_cons.mp member with rfl | above
      · exact ⟨enters, List.prefix_rfl⟩
      · obtain ⟨entersAbove, stem⟩ := enters_of_mem_wayUp (enters.of_parent? step) above
        rw [moves]
        exact ⟨entersAbove, stem.trans (List.prefix_append _ _)⟩
termination_by start.text.length

/-- What the search ends with: the path of the most first moves that lead to a directory with an
entry `.git`, or a failure when no first moves do. -/
def Leading (tree : FileTree) (moves : List String) : Except Failure Path → Prop
  | .ok path => path.moves <+: moves ∧
      tree.lookup true path = .ok (Path.follow [] path.moves, .directory) ∧
      HasGit tree (Path.follow [] path.moves) ∧
      ∀ front, front <+: moves → path.moves.length < front.length →
        ¬ HasGit tree (Path.follow [] front)
  | .error failure => failure = .noRepository ∧
      ∀ front, front <+: moves → ¬ HasGit tree (Path.follow [] front)

/-- One more move to a directory without an entry `.git` is passed by the search. -/
theorem Leading.concat {last : String} (leading : Leading tree moves result)
    (absent : ¬ HasGit tree (Path.follow [] (moves ++ [last]))) :
    Leading tree (moves ++ [last]) result := by
  cases result with
  | ok path =>
      obtain ⟨stem, looked, holds, passed⟩ := leading
      refine ⟨stem.trans (List.prefix_append moves [last]), looked, holds, ?_⟩
      intro front frontStem longer
      rcases List.prefix_concat_iff.mp frontStem with rfl | before
      · exact absent
      · exact passed front before longer
  | error failure =>
      obtain ⟨same, passed⟩ := leading
      refine ⟨same, ?_⟩
      intro front frontStem
      rcases List.prefix_concat_iff.mp frontStem with rfl | before
      · exact absent
      · exact passed front before

theorem Search.leading (search : Search tree path result) (linkFree : tree.LinkFree)
    (enters : tree.Enters path) (room : HasRoom path) : Leading tree path.moves result := by
  have location := Path.location_eq_follow_moves
  induction search with
  | found holds =>
      have hasGit := ((isRepository_iff linkFree enters).mp holds).1
      have looked := enters.lookup true
      rw [location] at hasGit looked
      refine ⟨List.prefix_rfl, looked, hasGit, ?_⟩
      intro front stem longer
      exact absurd stem.length_le (Nat.not_le.mpr longer)
  | up passed step further inductionHypothesis =>
      obtain ⟨-, last, moves⟩ := Path.moves_of_parent? enters.absolute step
      rw [moves]
      apply Leading.concat (inductionHypothesis (enters.of_parent? step) (room.of_parent? step))
      intro hasGit
      rw [← moves, ← location] at hasGit
      rw [(isRepository_iff linkFree enters).mpr ⟨hasGit, room⟩] at passed
      cases passed
  | @top path passed last =>
      have still := Path.moves_eq_nil enters.absolute last
      have atTop : path.location = Path.follow [] [] := by rw [location, still]
      refine ⟨rfl, ?_⟩
      intro front stem hasGit
      rw [still, List.prefix_nil] at stem
      rw [stem, ← atTop] at hasGit
      rw [(isRepository_iff linkFree enters).mpr ⟨hasGit, room⟩] at passed
      cases passed

end ProjectRoot

end ChunkPrune
