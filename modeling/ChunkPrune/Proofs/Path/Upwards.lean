import Mathlib.Data.List.DropRight
import ChunkPrune.Proofs.Path.Text

/-!
# The path without its last step

Dropping the last step of a path takes something from the end of its text. On an absolute path
this is the last segment that is not idle, with the idle ones around it. So the paths on the way
up lead to where the first segments of the path lead, in turn from all of them down to none.
-/

namespace ChunkPrune.Path

/-- The segments of a path that lead somewhere, upwards or to a name. -/
def moves (path : Path) : List String := path.segments.filter fun segment => !isIdle segment

variable {path parent : Path} {segments kept dropped : List String}

theorem follow_moves (here : Location) (segments : List String) :
    follow here (segments.filter fun segment => !isIdle segment) = follow here segments := by
  induction segments generalizing here with
  | nil => rfl
  | cons segment rest inductionHypothesis =>
      by_cases idle : isIdle segment = true
      · rw [List.filter_cons_of_neg (by simp [idle]), follow, if_pos idle]
        exact inductionHypothesis here
      · rw [List.filter_cons_of_pos (by simp [idle]), follow, follow, if_neg idle, if_neg idle]
        split
        · exact inductionHypothesis here.dropLast
        · exact inductionHypothesis (here ++ [segment])

theorem location_eq_follow_moves (path : Path) : path.location = follow [] path.moves :=
  (follow_moves [] path.segments).symm

/-! ## The text that is dropped -/

theorem exists_slashed_append (more : ∃ segment ∈ dropped, segment ≠ "") :
    ∃ rest, rest ≠ "" ∧ slashed (kept ++ dropped) = slashed kept ++ rest := by
  obtain ⟨segment, member, filled⟩ := more
  have nonempty : slashed dropped ≠ "" := by
    intro empty
    cases letters : segment.toList with
    | nil => exact filled (String.toList_inj.mp letters)
    | cons c others =>
        have inSegment : c ∈ segment.toList := by
          rw [letters]
          exact List.mem_cons_self
        have inText : c ∈ (slashed dropped).toList := by
          rw [toList_slashed]
          exact List.mem_intercalate_of_mem (List.mem_map_of_mem member) inSegment
        rw [empty] at inText
        exact absurd inText List.not_mem_nil
  by_cases alone : kept = []
  · refine ⟨slashed dropped, nonempty, ?_⟩
    rw [alone, List.nil_append]
    exact String.empty_append.symm
  · refine ⟨"/" ++ slashed dropped, ?_, ?_⟩
    · exact fun empty => nonempty (String.append_eq_empty_iff.mp empty).2
    · rw [slashed, String.intercalate_append_of_ne_nil alone (List.ne_nil_of_mem member),
        String.append_assoc]
      rfl

theorem text_eq_slashed_body (path : Path) :
    path.text = (if path.isAbsolute then "/" else "") ++ slashed path.body := by
  have text := slashed_segments path
  by_cases absolute : path.isAbsolute = true
  · rw [segments_of_isAbsolute absolute] at text
    rw [if_pos absolute]
    cases shape : path.body with
    | nil =>
        rw [shape] at text
        exact absurd text.symm (text_ne_empty absolute)
    | cons first rest =>
        rw [shape, slashed, String.intercalate_cons_cons, String.empty_append] at text
        exact text.symm
  · rw [if_neg absolute, body, if_neg absolute, text, String.empty_append]

/-- The last segment that is not idle is dropped, with the idle ones before and after it. -/
theorem exists_dropped {before : List String} {last : String}
    (left : segments.reverse.dropWhile isIdle = last :: before) :
    ∃ dropped, segments = (before.dropWhile isIdle).reverse ++ dropped ∧
      (dropped.filter fun segment => !isIdle segment) = [last] := by
  have idleOnly : ∀ others : List String, (others.rtakeWhile isIdle).filter
      (fun segment => !isIdle segment) = [] := by
    intro others
    apply List.filter_eq_nil_iff.mpr
    intro segment member
    simp [List.mem_rtakeWhile_imp member]
  have busy : isIdle last = false := by
    have first := List.head?_dropWhile_not isIdle segments.reverse
    rw [left] at first
    exact first
  have around : before.reverse =
      (before.dropWhile isIdle).reverse ++ before.reverse.rtakeWhile isIdle := by
    rw [← List.rdropWhile_reverse]
    exact List.rdropWhile_append_rtakeWhile.symm
  refine ⟨before.reverse.rtakeWhile isIdle ++ [last] ++ segments.rtakeWhile isIdle, ?_, ?_⟩
  · calc segments
      _ = segments.rdropWhile isIdle ++ segments.rtakeWhile isIdle :=
          List.rdropWhile_append_rtakeWhile.symm
      _ = before.reverse ++ [last] ++ segments.rtakeWhile isIdle := by
          rw [List.rdropWhile, left, List.reverse_cons]
      _ = (before.dropWhile isIdle).reverse ++ before.reverse.rtakeWhile isIdle ++ [last] ++
          segments.rtakeWhile isIdle := by rw [← around]
      _ = _ := by simp only [List.append_assoc]
  · rw [List.filter_append, List.filter_append, idleOnly, idleOnly]
    simp [busy]

theorem exists_filled {last : String}
    (single : (dropped.filter fun segment => !isIdle segment) = [last]) :
    ∃ segment ∈ dropped, segment ≠ "" := by
  have member : last ∈ dropped.filter fun segment => !isIdle segment := by
    rw [single]
    exact List.mem_singleton_self last
  obtain ⟨inDropped, busy⟩ := List.mem_filter.mp member
  refine ⟨last, inDropped, ?_⟩
  intro empty
  rw [empty] at busy
  exact absurd busy (by decide)

theorem parent?_eq_some (up : path.parent? = some parent) :
    ∃ kept dropped, path.body = kept ++ dropped ∧ (∃ segment ∈ dropped, segment ≠ "") ∧
      parent.text = (if path.isAbsolute then "/" else "") ++ slashed kept := by
  rw [parent?] at up
  by_cases point : (!path.isAbsolute && path.body.head? == some ".") = true
  · obtain ⟨relative, head⟩ := Bool.and_eq_true_iff.mp point
    rw [Bool.not_eq_true'] at relative
    obtain ⟨rest, body⟩ := List.head?_eq_some_iff.mp (beq_iff_eq.mp head)
    rw [if_pos point, body, List.drop_one, List.tail_cons] at up
    simp only at up
    split at up
    next last before left =>
      obtain ⟨dropped, whole, single⟩ := exists_dropped left
      refine ⟨["."] ++ (before.dropWhile isIdle).reverse, dropped, ?_, exists_filled single, ?_⟩
      · rw [body, List.append_assoc, ← whole]
        rfl
      · cases up
        rfl
    · -- only the point is left, and it is dropped
      refine ⟨[], path.body, rfl, ⟨".", ?_, by decide⟩, ?_⟩
      · rw [body]
        exact List.mem_cons_self
      · cases up
        rw [relative]
        rfl
  · rw [if_neg point] at up
    simp only at up
    split at up
    next last before left =>
      obtain ⟨dropped, whole, single⟩ := exists_dropped left
      refine ⟨_, dropped, whole, exists_filled single, ?_⟩
      cases up
      rfl
    · cases up

/-- Without its last step, a path is the start of its text. -/
theorem exists_text_of_parent? (up : path.parent? = some parent) :
    ∃ rest, rest ≠ "" ∧ path.text = parent.text ++ rest := by
  obtain ⟨kept, dropped, whole, more, text⟩ := parent?_eq_some up
  obtain ⟨rest, nonempty, slashes⟩ : ∃ rest, rest ≠ "" ∧
      slashed (kept ++ dropped) = slashed kept ++ rest := exists_slashed_append more
  refine ⟨rest, nonempty, ?_⟩
  rw [text_eq_slashed_body, whole, slashes, text, String.append_assoc]

theorem length_of_parent? (up : path.parent? = some parent) :
    parent.text.length < path.text.length := by
  obtain ⟨rest, nonempty, text⟩ := exists_text_of_parent? up
  have positive : rest.length ≠ 0 := fun zero => nonempty (String.length_eq_zero_iff.mp zero)
  rw [text, String.length_append]
  omega

/-! ## Absolute paths -/

theorem moves_of_isAbsolute (absolute : path.isAbsolute = true) :
    path.moves = path.body.filter fun segment => !isIdle segment := by
  rw [moves, segments_of_isAbsolute absolute]
  exact List.filter_cons_of_neg (by decide)

theorem moves_pathOf (noSlash : ∀ segment ∈ kept, '/' ∉ segment.toList) :
    (FileTree.pathOf kept).moves = kept.filter fun segment => !isIdle segment := by
  cases kept with
  | nil => decide
  | cons first rest =>
      have segments : (FileTree.pathOf (first :: rest)).segments = "" :: first :: rest := by
        rw [Path.segments, toList_pathOf, List.splitOn_cons_eq_if_modifyHead,
          if_pos (beq_self_eq_true _), List.map_cons,
          segments_slashed noSlash (List.cons_ne_nil _ _)]
      rw [moves, segments]
      exact List.filter_cons_of_neg (by decide)

theorem parent?_of_isAbsolute (absolute : path.isAbsolute = true) :
    path.parent? = match path.body.reverse.dropWhile isIdle with
      | _ :: before => some (FileTree.pathOf (before.dropWhile isIdle).reverse)
      | [] => none := by
  rw [parent?, absolute]
  simp only [Bool.not_true, Bool.false_and, Bool.false_eq_true, if_false, if_true]
  cases path.body.reverse.dropWhile isIdle with
  | nil => rfl
  | cons last before => rfl

/-- On an absolute path, the last move is dropped. -/
theorem moves_of_parent? (absolute : path.isAbsolute = true) (up : path.parent? = some parent) :
    parent.isAbsolute = true ∧ ∃ last, path.moves = parent.moves ++ [last] := by
  rw [parent?_of_isAbsolute absolute] at up
  split at up
  next last before left =>
    cases up
    obtain ⟨dropped, whole, single⟩ := exists_dropped left
    have noSlash : ∀ segment ∈ (before.dropWhile isIdle).reverse, '/' ∉ segment.toList := by
      intro segment member
      have inSegments : segment ∈ path.segments := by
        rw [segments_of_isAbsolute absolute, whole]
        exact List.mem_cons_of_mem _ (List.mem_append_left _ member)
      exact slash_not_mem_segment inSegments
    refine ⟨isAbsolute_pathOf _, last, ?_⟩
    rw [moves_of_isAbsolute absolute, whole, List.filter_append, single, moves_pathOf noSlash]
  · cases up

theorem moves_eq_nil (absolute : path.isAbsolute = true) (top : path.parent? = none) :
    path.moves = [] := by
  rw [parent?_of_isAbsolute absolute] at top
  split at top
  · cases top
  next idle =>
    rw [moves_of_isAbsolute absolute]
    apply List.filter_eq_nil_iff.mpr
    intro segment member
    have segmentIdle := List.dropWhile_eq_nil_iff.mp idle segment (List.mem_reverse.mpr member)
    simp [segmentIdle]

end ChunkPrune.Path
