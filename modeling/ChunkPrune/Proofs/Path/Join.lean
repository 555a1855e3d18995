import ChunkPrune.Proofs.Path.Location

/-!
# Joined paths

A relative path joined to an absolute one is followed from where the absolute one leads. The
last segment of a path ends as its text does.
-/

namespace ChunkPrune

namespace Text

theorem endsWith_iff {text ending : String} :
    endsWith text ending = true ↔ ∃ front, text.toList = front ++ ending.toList := by
  rw [endsWith, Option.isSome_iff_exists]
  exact exists_congr fun front => dropEnd?_eq_some_iff

theorem endsWith_append (front ending : String) : endsWith (front ++ ending) ending = true :=
  endsWith_iff.mpr ⟨front.toList, String.toList_append⟩

theorem endsWith_of_append {front text ending : String} (ends : endsWith text ending = true) :
    endsWith (front ++ text) ending = true := by
  obtain ⟨start, shape⟩ := endsWith_iff.mp ends
  refine endsWith_iff.mpr ⟨front.toList ++ start, ?_⟩
  rw [String.toList_append, shape, List.append_assoc]

/-- A text has the last character of each of its endings. -/
theorem getLast?_of_endsWith {text ending : String} (ends : endsWith text ending = true)
    (nonempty : ending.toList ≠ []) : text.toList.getLast? = ending.toList.getLast? := by
  obtain ⟨front, shape⟩ := endsWith_iff.mp ends
  rw [shape, List.getLast?_append_of_ne_nil _ nonempty]

end Text

namespace Path

theorem isName_of_endsWith {name ending : String} (ends : Text.endsWith name ending = true)
    (long : 2 < ending.length) (noSlash : '/' ∉ name.toList) : IsName name := by
  obtain ⟨front, shape⟩ := Text.endsWith_iff.mp ends
  have size : 2 < name.toList.length := by
    rw [shape, List.length_append, String.length_toList]
    omega
  refine ⟨?_, ?_, noSlash⟩
  · rw [isIdle, Bool.or_eq_false_iff, beq_eq_false_iff_ne, beq_eq_false_iff_ne]
    constructor <;> rintro rfl <;> exact absurd size (by decide)
  · rintro rfl
    exact absurd size (by decide)

theorem exists_join_text (base path : Path) :
    ∃ front, (base.join path).text = front ++ path.text := by
  rw [join]
  split
  · exact ⟨"", by simp⟩
  · split
    · exact ⟨base.text, rfl⟩
    · exact ⟨base.text ++ "/", rfl⟩

theorem isAbsolute_append {path : Path} (nonempty : path.text ≠ "") (suffix : String) :
    (path.append suffix).isAbsolute = path.isAbsolute := by
  rw [Bool.eq_iff_iff, isAbsolute_iff, isAbsolute_iff, append, String.toList_append]
  cases shape : path.text.toList with
  | nil => exact absurd (String.toList_inj.mp shape) nonempty
  | cons first rest => simp

theorem isAbsolute_join {base : Path} (path : Path) (absolute : base.isAbsolute = true) :
    (base.join path).isAbsolute = true := by
  obtain ⟨rest, shape⟩ := isAbsolute_iff.mp absolute
  rw [join]
  split
  · assumption
  · split
    · exact isAbsolute_iff.mpr ⟨rest ++ path.text.toList, by
        rw [String.toList_append, shape, List.cons_append]⟩
    · exact isAbsolute_iff.mpr ⟨rest ++ "/".toList ++ path.text.toList, by
        rw [String.toList_append, String.toList_append, shape, List.cons_append,
          List.cons_append]⟩

theorem segments_slash (front back : String) :
    segments ⟨front ++ "/" ++ back⟩ = segments ⟨front⟩ ++ segments ⟨back⟩ := by
  simp only [segments, String.toList_append]
  show ((front.toList ++ ['/'] ++ back.toList).splitOn '/').map String.ofList = _
  rw [List.append_assoc, List.singleton_append, List.splitOn_append_cons_self, List.map_append]

/-- Joining keeps the segments of a path, but for an empty one after a last slash. -/
theorem exists_stem {base : Path} (nonempty : base.text ≠ "") :
    ∃ front slash, front ≠ [] ∧ (slash = [] ∨ slash = [""]) ∧ base.segments = front ++ slash ∧
      ∀ path : Path, path.isAbsolute = false →
        (base.join path).segments = front ++ path.segments := by
  by_cases ends : Text.endsWith base.text "/" = true
  · obtain ⟨front, shape⟩ := Text.endsWith_iff.mp ends
    have text : base.text = String.ofList front ++ "/" ++ "" := by
      apply String.toList_inj.mp
      rw [shape]
      simp
    have whole := segments_slash (String.ofList front) ""
    rw [← text] at whole
    refine ⟨segments ⟨String.ofList front⟩, [""], segments_ne_nil _, Or.inr rfl, whole, ?_⟩
    intro path relative
    have joined : base.text ++ path.text = String.ofList front ++ "/" ++ path.text := by
      rw [text, String.append_empty]
    rw [join, if_neg (by rw [relative]; exact Bool.false_ne_true), if_pos (by simp [ends]),
      joined, segments_slash]
  · refine ⟨base.segments, [], segments_ne_nil _, Or.inl rfl, (List.append_nil _).symm, ?_⟩
    intro path relative
    rw [join, if_neg (by rw [relative]; exact Bool.false_ne_true),
      if_neg (by simp [nonempty, ends]), segments_slash]

/-- Joining keeps the segments of both paths, but for an empty one after a last slash. -/
theorem segments_join_of_ne {base path : Path} (nonempty : base.text ≠ "")
    (relative : path.isAbsolute = false) :
    ∃ front slash, front ≠ [] ∧ (slash = [] ∨ slash = [""]) ∧ base.segments = front ++ slash ∧
      (base.join path).segments = front ++ path.segments := by
  obtain ⟨front, slash, started, slashed, whole, joined⟩ := exists_stem nonempty
  exact ⟨front, slash, started, slashed, whole, joined path relative⟩

theorem segments_join {base path : Path} (absolute : base.isAbsolute = true)
    (relative : path.isAbsolute = false) :
    ∃ front slash, (slash = [] ∨ slash = [""]) ∧ base.segments = front ++ slash ∧
      (base.join path).segments = front ++ path.segments := by
  obtain ⟨front, slash, -, joins⟩ := segments_join_of_ne (text_ne_empty absolute) relative
  exact ⟨front, slash, joins⟩

/-- A relative path is followed from where the absolute path before it leads. -/
theorem location_join {base path : Path} (absolute : base.isAbsolute = true)
    (relative : path.isAbsolute = false) :
    (base.join path).location = follow base.location path.segments := by
  obtain ⟨front, slash, slashed, whole, joined⟩ := segments_join absolute relative
  have idle : ∀ segment ∈ slash, isIdle segment = true := by
    rcases slashed with rfl | rfl
    · exact fun segment member => absurd member List.not_mem_nil
    · exact fun segment member => List.mem_singleton.mp member ▸ by decide
  rw [location, location, whole, joined, follow_append, follow_append, follow_idle idle]

/-- A path is followed from where the absolute path before it leads, or from the top. -/
theorem location_join_start {base : Path} (absolute : base.isAbsolute = true) (path : Path) :
    (base.join path).location = follow (FileTree.start base.location path) path.segments := by
  rw [FileTree.start]
  split
  next pathAbsolute => rw [join, if_pos pathAbsolute, location]
  next relative => exact location_join absolute (Bool.eq_false_iff.mpr relative)

/-- The last segment of a path ends as its text does. -/
theorem exists_last_segment {path : Path} {ending : String}
    (ends : Text.endsWith path.text ending = true) (noSlash : '/' ∉ ending.toList) :
    ∃ initial last, path.segments = initial ++ [last] ∧ Text.endsWith last ending = true := by
  obtain ⟨front, shape⟩ := Text.endsWith_iff.mp ends
  obtain ⟨initial, last, -, split⟩ := splitOn_append_of_not_mem noSlash front
  refine ⟨initial.map String.ofList, String.ofList (last ++ ending.toList), ?_, ?_⟩
  · rw [segments, shape, split, List.map_append, List.map_singleton]
  · exact Text.endsWith_iff.mpr ⟨last, String.toList_ofList⟩

end Path

end ChunkPrune
