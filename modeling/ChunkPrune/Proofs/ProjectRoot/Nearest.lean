import Mathlib.Data.List.Infix
import ChunkPrune.Proofs.Path.Text
import ChunkPrune.Proofs.ProjectRoot.Search

/-!
# The nearest repository

The search drops the last step of a path, and that leads from a directory to the one that contains
it when the step is a name. When the step goes up, the path without it denotes the directory that
the way came from, which need not contain the start. So the search finds the nearest repository
around the start in every tree just when no part of the way leaves the directories that lead down
to the start: a path without steps upwards is like that, and `/repo/sub/..` is not.
-/

namespace ChunkPrune

namespace Path

variable {path : Path} {here above : Location} {moves segments : List String}

/-- The first moves of the path never leave the way from the top down to where all of them lead. -/
def Straight (path : Path) : Prop :=
  ∀ front, front <+: path.moves → follow [] front <+: path.location

instance (path : Path) : Decidable path.Straight :=
  decidable_of_iff (∀ front ∈ path.moves.inits, follow [] front <+: path.location)
    (forall_congr' fun front => by rw [List.mem_inits])

/-- A step that first gets as far down as a directory ends in that directory. -/
theorem follow_single_of_beyond {segment : String} (beyond : ¬ above <+: here)
    (reached : above <+: follow here [segment]) : follow here [segment] = above := by
  rw [follow] at reached ⊢
  by_cases idle : isIdle segment = true
  · rw [if_pos idle] at reached
    exact absurd reached beyond
  · rw [if_neg idle] at reached ⊢
    by_cases up : segment = ".."
    · rw [if_pos up] at reached
      exact absurd (reached.trans (List.dropLast_prefix here)) beyond
    · rw [if_neg up] at reached ⊢
      rcases List.prefix_concat_iff.mp reached with same | before
      · exact same.symm
      · exact absurd before beyond

/-- A walk that ends in a directory or below it has come through that directory. -/
theorem exists_front_of_prefix (stem : above <+: follow here segments)
    (beyond : ¬ above <+: here) :
    ∃ front, front <+: segments ∧ front ≠ [] ∧ follow here front = above := by
  induction segments generalizing here with
  | nil => exact absurd stem beyond
  | cons segment rest inductionHypothesis =>
      have split : ∀ others,
          follow here (segment :: others) = follow (follow here [segment]) others :=
        follow_append here [segment]
      by_cases reached : above <+: follow here [segment]
      · exact ⟨[segment], List.cons_prefix_cons.mpr ⟨rfl, List.nil_prefix⟩,
          List.cons_ne_nil _ _, follow_single_of_beyond beyond reached⟩
      · rw [split] at stem
        obtain ⟨front, frontStem, nonempty, leads⟩ := inductionHypothesis stem reached
        refine ⟨segment :: front, List.cons_prefix_cons.mpr ⟨rfl, frontStem⟩,
          List.cons_ne_nil _ _, ?_⟩
        rw [split]
        exact leads

end Path

/-! ## Trees of directories -/

namespace FileTree

variable {tree : FileTree} {start : Path} {here : Location}

/-- The tree with directories at locations, and nothing else. -/
def directories : List Location → FileTree
  | [] => .empty
  | location :: rest => (directories rest).put location .directory

theorem entry?_directories (locations : List Location) (location : Location) :
    FileTree.entry? (directories locations) location =
      if location = [] ∨ location ∈ locations then some .directory else none := by
  induction locations with
  | nil =>
      cases location with
      | nil => rfl
      | cons name rest => rfl
  | cons first rest inductionHypothesis =>
      rw [directories]
      by_cases top : location = []
      · rw [top, if_pos (Or.inl rfl)]
        rfl
      · by_cases same : first = location
        · subst same
          rw [entry?_put_self top, if_pos (Or.inr List.mem_cons_self)]
        · have other : location ∈ first :: rest ↔ location ∈ rest := by
            rw [List.mem_cons, or_iff_right (fun equal => same equal.symm)]
          rw [entry?_put_of_ne same, inductionHypothesis]
          simp only [other]

theorem linkFree_directories (locations : List Location) :
    (directories locations).LinkFree := by
  intro location target
  rw [entry?_directories]
  split
  · simp
  · simp

theorem passes_single {move : String} (fits : move.utf8ByteSize ≤ nameLimit)
    (stands : tree.entry? (Path.follow here [move]) = some .directory) :
    tree.Passes here [move] (Path.follow here [move]) := by
  rw [Path.follow] at stands ⊢
  rw [Passes]
  by_cases idle : Path.isIdle move = true
  · rw [if_pos idle, if_pos idle]
    rfl
  · rw [if_neg idle] at stands ⊢
    rw [if_neg idle]
    by_cases up : move = ".."
    · rw [if_pos up, if_pos up]
      rfl
    · rw [if_neg up] at stands ⊢
      rw [if_neg up]
      exact ⟨fits, stands, rfl⟩

theorem passes_of_fronts {moves : List String}
    (fits : ∀ move ∈ moves, move.utf8ByteSize ≤ nameLimit)
    (stands : ∀ front, front <+: moves →
      tree.entry? (Path.follow here front) = some .directory) :
    tree.Passes here moves (Path.follow here moves) := by
  induction moves generalizing here with
  | nil => rfl
  | cons move rest inductionHypothesis =>
      obtain ⟨firstFits, othersFit⟩ := List.forall_mem_cons.mp fits
      have first := passes_single firstFits
        (stands [move] (List.cons_prefix_cons.mpr ⟨rfl, List.nil_prefix⟩))
      have others : tree.Passes (Path.follow here [move]) rest
          (Path.follow (Path.follow here [move]) rest) := by
        refine inductionHypothesis othersFit fun front stem => ?_
        rw [← Path.follow_append]
        exact stands (move :: front) (List.cons_prefix_cons.mpr ⟨rfl, stem⟩)
      rw [← Path.follow_append] at others
      exact passes_append.mpr ⟨_, first, others⟩

theorem fits_of_passes {there : Location} {segments : List String}
    (passes : tree.Passes here segments there) :
    ∀ segment ∈ segments, segment.utf8ByteSize ≤ nameLimit := by
  induction segments generalizing here with
  | nil => exact fun _ absurdity => absurd absurdity List.not_mem_nil
  | cons segment rest inductionHypothesis =>
      rw [Passes] at passes
      rw [List.forall_mem_cons]
      by_cases idle : Path.isIdle segment = true
      · rw [if_pos idle] at passes
        refine ⟨?_, inductionHypothesis passes⟩
        rcases Bool.or_eq_true_iff.mp idle with empty | point
        · rw [beq_iff_eq.mp empty]
          decide
        · rw [beq_iff_eq.mp point]
          decide
      · rw [if_neg idle] at passes
        by_cases up : segment = ".."
        · rw [if_pos up] at passes
          exact ⟨up ▸ by decide, inductionHypothesis passes⟩
        · rw [if_neg up] at passes
          exact ⟨passes.1, inductionHypothesis passes.2.2⟩

/-- In a tree of directories, a path denotes one when its first moves lead to them. -/
theorem enters_directories {locations : List Location} (absolute : start.isAbsolute = true)
    (noNul : start.text.toList.contains '\x00' = false)
    (short : start.text.utf8ByteSize < pathBound)
    (fits : ∀ move ∈ start.moves, move.utf8ByteSize ≤ nameLimit)
    (stands : ∀ front ∈ start.moves.inits,
      Path.follow [] front = [] ∨ Path.follow [] front ∈ locations) :
    (directories locations).Enters start := by
  refine ⟨absolute, noNul, short, passes_moves.mp ?_⟩
  rw [start.location_eq_follow_moves]
  apply passes_of_fronts fits
  intro front stem
  rw [entry?_directories, if_pos (stands front ((List.mem_inits _ _).mpr stem))]

end FileTree

namespace ProjectRoot

variable {tree : FileTree} {start : Path} {here : Location} {result : Except Failure Path}

/-- The result is the nearest repository from a directory upwards, or there is none. -/
def Nearest (tree : FileTree) (here : Location) : Except Failure Path → Prop
  | .ok path => ∃ root, tree.lookup true path = .ok (root, .directory) ∧ root <+: here ∧
      HasGit tree root ∧
      ∀ between, between <+: here → root.length < between.length → ¬ HasGit tree between
  | .error failure => failure = .noRepository ∧ ∀ above, above <+: here → ¬ HasGit tree above

theorem Leading.nearest (leading : Leading tree start.moves result) (straight : start.Straight) :
    Nearest tree start.location result := by
  have location := start.location_eq_follow_moves
  cases result with
  | ok path =>
      obtain ⟨stem, looked, hasGit, passed⟩ := leading
      have inside := straight path.moves stem
      refine ⟨Path.follow [] path.moves, looked, inside, hasGit, ?_⟩
      intro between above longer
      obtain ⟨rest, whole⟩ := stem
      rw [location, ← whole, Path.follow_append] at above
      have beyond : ¬ between <+: Path.follow [] path.moves :=
        fun shorter => absurd shorter.length_le (Nat.not_le.mpr longer)
      obtain ⟨front, frontStem, nonempty, leads⟩ := Path.exists_front_of_prefix above beyond
      have more := List.length_pos_iff.mpr nonempty
      have absent := passed (path.moves ++ front)
        (whole ▸ (List.prefix_append_right_inj path.moves).mpr frontStem)
        (by rw [List.length_append]; omega)
      rwa [Path.follow_append, leads] at absent
  | error failure =>
      obtain ⟨same, passed⟩ := leading
      refine ⟨same, ?_⟩
      intro above stem
      by_cases top : above = []
      · rw [top]
        exact passed [] List.nil_prefix
      · rw [location] at stem
        obtain ⟨front, frontStem, -, leads⟩ := Path.exists_front_of_prefix stem
          (fun empty => top (List.prefix_nil.mp empty))
        exact leads ▸ passed front frontStem

/-! ## A repository off the way down -/

/-- The tree in which moves lead through directories, with an entry `.git` in the one that the
front of them leads to. -/
def gitAt (moves front : List String) : FileTree :=
  FileTree.directories ((Path.follow [] front ++ [".git"]) :: moves.inits.map (Path.follow []))

theorem enters_gitAt (enters : tree.Enters start) (front : List String) :
    (gitAt start.moves front).Enters start := by
  have fits := FileTree.fits_of_passes (FileTree.passes_moves.mpr enters.passes)
  refine FileTree.enters_directories enters.absolute enters.noNul enters.short fits ?_
  intro other member
  exact Or.inr (List.mem_cons_of_mem _ (List.mem_map_of_mem member))

theorem hasGit_gitAt_iff {moves front : List String} (plain : ".git" ∉ moves)
    {location : Location} :
    HasGit (gitAt moves front) location ↔ location = Path.follow [] front := by
  rw [HasGit, gitAt, FileTree.entry?_directories, ite_ne_right_iff]
  constructor
  · intro stands
    rcases stands.1 with empty | member
    · simp at empty
    · rcases List.mem_cons.mp member with same | visited
      · exact List.append_cancel_right same
      · obtain ⟨other, otherMember, leads⟩ := List.mem_map.mp visited
        have named : ".git" ∈ Path.follow [] other := by
          rw [leads]
          simp
        have inOther : ".git" ∈ other := (Path.follow_sublist [] other).mem named
        exact absurd (((List.mem_inits _ _).mp otherMember).mem inOther) plain
  · intro same
    rw [same]
    exact ⟨Or.inr List.mem_cons_self, by simp⟩

/-- From a path that is not straight, the search can find a repository that does not contain the
directory it started from. -/
theorem exists_not_nearest (enters : tree.Enters start) (room : HasRoom start)
    (plain : ".git" ∉ start.moves) (bent : ¬ start.Straight) :
    ∃ other : FileTree, other.LinkFree ∧
      other.lookup true start = .ok (start.location, .directory) ∧
      ¬ Nearest other start.location (enclosing other start) := by
  obtain ⟨front, stem, outside⟩ :
      ∃ front, front <+: start.moves ∧ ¬ Path.follow [] front <+: start.location := by
    simpa [Path.Straight] using bent
  have linkFree : (gitAt start.moves front).LinkFree := FileTree.linkFree_directories _
  have entersThere := enters_gitAt enters front
  have leading :=
    (search_enclosing (gitAt start.moves front) start).leading linkFree entersThere room
  refine ⟨gitAt start.moves front, linkFree, entersThere.lookup true, ?_⟩
  intro nearest
  cases found : enclosing (gitAt start.moves front) start with
  | ok path =>
      rw [found] at leading nearest
      obtain ⟨-, looked, hasGit, -⟩ := leading
      obtain ⟨root, denotes, inside, -⟩ := nearest
      rw [looked, (hasGit_gitAt_iff plain).mp hasGit] at denotes
      cases denotes
      exact outside inside
  | error failure =>
      rw [found] at leading
      exact leading.2 front stem ((hasGit_gitAt_iff plain).mpr rfl)

/-! ## The search from a directory -/

/-- The search ends, with the first path on the way up to a directory with an entry `.git`. When
the start is straight, that is the nearest repository around the start. When it is not, there is a
tree in which the search misses it. -/
theorem enclosing_nearest (linkFree : tree.LinkFree) (absolute : start.isAbsolute = true)
    (denotes : tree.lookup true start = .ok (here, .directory)) :
    (∀ result, Search tree start result ↔ enclosing tree start = result) ∧
    (∀ path ∈ wayUp start, path.moves <+: start.moves ∧
      tree.lookup true path = .ok (Path.follow [] path.moves, .directory) ∧
      (isRepository tree path = true ↔
        HasGit tree (Path.follow [] path.moves) ∧ HasRoom path)) ∧
    (HasRoom start →
      Leading tree start.moves (enclosing tree start) ∧
      (start.Straight → Nearest tree here (enclosing tree start)) ∧
      (¬ start.Straight → ".git" ∉ start.moves →
        ∃ other : FileTree, other.LinkFree ∧
          other.lookup true start = .ok (here, .directory) ∧
          ¬ Nearest other here (enclosing other start))) := by
  have enters := FileTree.enters_of_lookup linkFree absolute denotes
  obtain rfl : here = start.location := by
    rw [enters.lookup true] at denotes
    cases denotes
    rfl
  refine ⟨fun result => search_iff, ?_, ?_⟩
  · intro path member
    obtain ⟨entersPath, stem⟩ := enters_of_mem_wayUp enters member
    rw [← path.location_eq_follow_moves]
    exact ⟨stem, entersPath.lookup true, isRepository_iff linkFree entersPath⟩
  · intro room
    have leading := (search_enclosing tree start).leading linkFree enters room
    refine ⟨leading, leading.nearest, ?_⟩
    intro bent plain
    exact exists_not_nearest enters room plain bent

/-- A repository in a directory, of which the directory around it is none. -/
def subRepository : FileTree :=
  FileTree.directories [["repo"], ["repo", "sub"], ["repo", "sub", ".git"]]

theorem enters_subRepository_points : subRepository.Enters ⟨"/repo/./sub/."⟩ :=
  FileTree.enters_directories (by decide) (by decide) (by decide) (by decide) (by decide)

theorem enters_subRepository_up : subRepository.Enters ⟨"/repo/sub/.."⟩ :=
  FileTree.enters_directories (by decide) (by decide) (by decide) (by decide) (by decide)

/-- Without its last step, `/repo/sub/..` denotes a directory that does not contain `/repo`. -/
theorem enclosing_nearest_subRepository :
    Nearest subRepository ["repo", "sub"] (enclosing subRepository ⟨"/repo/./sub/."⟩) ∧
      enclosing subRepository ⟨"/repo/sub/.."⟩ = .ok ⟨"/repo/sub"⟩ ∧
      ∃ other : FileTree, other.LinkFree ∧
        other.lookup true ⟨"/repo/sub/.."⟩ = .ok (["repo"], .directory) ∧
        ¬ Nearest other ["repo"] (enclosing other ⟨"/repo/sub/.."⟩) := by
  have linkFree : subRepository.LinkFree := FileTree.linkFree_directories _
  obtain ⟨-, -, points⟩ := enclosing_nearest linkFree (by decide)
    (enters_subRepository_points.lookup true)
  obtain ⟨search, looks, up⟩ := enclosing_nearest linkFree (by decide)
    (enters_subRepository_up.lookup true)
  have way : wayUp ⟨"/repo/sub/.."⟩ = [⟨"/repo/sub/.."⟩, ⟨"/repo/sub"⟩, ⟨"/repo"⟩, ⟨"/"⟩] := by
    decide
  have passed : isRepository subRepository ⟨"/repo/sub/.."⟩ = false := by
    rw [Bool.eq_false_iff, Ne, (looks _ (by rw [way]; simp)).2.2, HasGit, subRepository,
      FileTree.entry?_directories]
    decide
  have holds : isRepository subRepository ⟨"/repo/sub"⟩ = true := by
    rw [(looks _ (by rw [way]; simp)).2.2, HasGit, subRepository, FileTree.entry?_directories]
    decide
  refine ⟨(points (by decide)).2.1 (by decide), ?_, (up (by decide)).2.2 (by decide) (by decide)⟩
  exact (search _).mp (.up passed (by decide) (.found holds))

end ProjectRoot

end ChunkPrune
