import ChunkPrune.Proofs.Path.Location

/-!
# The text of a path and of its location

The text of a path is its segments with slashes between them. A location keeps some of the
segments that lead to it, in their order. So the path of the location that an absolute path names
is not longer than the path, and has no characters but those of the path.
-/

namespace ChunkPrune

theorem List.mem_intercalate_of_mem {α : Type} {separator part : List α} {parts : List (List α)}
    (member : part ∈ parts) {item : α} (inPart : item ∈ part) :
    item ∈ separator.intercalate parts := by
  induction parts with
  | nil => exact absurd member List.not_mem_nil
  | cons first rest inductionHypothesis =>
      cases rest with
      | nil =>
          rw [List.mem_singleton.mp member] at inPart
          simpa using inPart
      | cons second others =>
          rw [List.intercalate_cons_cons, List.mem_append, List.mem_append]
          rcases List.mem_cons.mp member with rfl | member
          · exact Or.inl (Or.inl inPart)
          · exact Or.inr (inductionHypothesis member)

namespace Path

theorem not_mem_name_of_pathOf {names : Location} {char : Char}
    (absent : char ∉ (FileTree.pathOf names).text.toList) {name : String}
    (member : name ∈ names) : char ∉ name.toList := by
  intro found
  rw [Path.toList_pathOf, Path.toList_slashed] at absent
  exact absent (List.mem_cons_of_mem _
    (List.mem_intercalate_of_mem (List.mem_map_of_mem member) found))

/-! ## Texts with slashes between them -/

/-- The bytes of texts, each with a slash. -/
def weight : List String → Nat
  | [] => 0
  | text :: rest => text.utf8ByteSize + 1 + weight rest

theorem weight_le_of_sublist {texts others : List String} (sublist : texts.Sublist others) :
    weight texts ≤ weight others := by
  induction sublist with
  | slnil => exact Nat.le_refl _
  | cons text _ inductionHypothesis => exact Nat.le_trans inductionHypothesis (Nat.le_add_left _ _)
  | cons_cons text _ inductionHypothesis => exact Nat.add_le_add_left inductionHypothesis _

theorem utf8ByteSize_slashed {texts : List String} (nonempty : texts ≠ []) :
    (slashed texts).utf8ByteSize + 1 = weight texts := by
  have slash : String.utf8ByteSize "/" = 1 := by decide
  induction texts with
  | nil => exact absurd rfl nonempty
  | cons text rest inductionHypothesis =>
      cases rest with
      | nil => simp [slashed, weight]
      | cons second others =>
          have further := inductionHypothesis (List.cons_ne_nil _ _)
          rw [slashed] at further
          rw [slashed, String.intercalate_cons_cons, String.utf8ByteSize_append,
            String.utf8ByteSize_append, slash, weight, Nat.add_assoc, further]

theorem mem_slashed {texts : List String} {char : Char}
    (member : char ∈ (slashed texts).toList) :
    char = '/' ∨ ∃ text ∈ texts, char ∈ text.toList := by
  induction texts with
  | nil => exact absurd member List.not_mem_nil
  | cons text rest inductionHypothesis =>
      cases rest with
      | nil =>
          have single : char ∈ text.toList := by simpa [slashed] using member
          exact Or.inr ⟨text, List.mem_cons_self, single⟩
      | cons second others =>
          rw [slashed, String.intercalate_cons_cons, String.toList_append, String.toList_append,
            List.mem_append, List.mem_append] at member
          rcases member with (inText | isSlash) | further
          · exact Or.inr ⟨text, List.mem_cons_self, inText⟩
          · exact Or.inl (List.mem_singleton.mp isSlash)
          · rcases inductionHypothesis further with isSlash | ⟨other, otherMember, inOther⟩
            · exact Or.inl isSlash
            · exact Or.inr ⟨other, List.mem_cons_of_mem _ otherMember, inOther⟩

theorem slashed_segments (path : Path) : slashed path.segments = path.text := by
  apply String.toList_inj.mp
  rw [toList_slashed, segments, List.map_map]
  have same : String.toList ∘ String.ofList = id := by
    funext text
    exact String.toList_ofList
  rw [same, List.map_id, List.intercalate_splitOn]

/-! ## The location of a path -/

theorem follow_sublist (here : Location) (segments : List String) :
    (follow here segments).Sublist (here ++ segments) := by
  induction segments generalizing here with
  | nil => simp [follow]
  | cons segment rest inductionHypothesis =>
      have skip : (here ++ rest).Sublist (here ++ segment :: rest) :=
        (List.sublist_cons_self segment rest).append_left here
      rw [follow]
      split
      · exact (inductionHypothesis here).trans skip
      · split
        · exact ((inductionHypothesis here.dropLast).trans
            ((List.dropLast_sublist here).append_right rest)).trans skip
        · simpa using inductionHypothesis (here ++ [segment])

/-- The segments of an absolute path after the empty one have all names of its location. -/
theorem location_sublist {path : Path} (absolute : path.isAbsolute = true) :
    path.location.Sublist path.body := by
  rw [location_eq_follow_body absolute]
  exact follow_sublist [] path.body

theorem utf8ByteSize_pathOf_location_le {path : Path} (absolute : path.isAbsolute = true) :
    (FileTree.pathOf path.location).text.utf8ByteSize ≤ path.text.utf8ByteSize := by
  have slash : String.utf8ByteSize "/" = 1 := by decide
  have whole := utf8ByteSize_slashed path.segments_ne_nil
  rw [slashed_segments, segments_of_isAbsolute absolute] at whole
  have kept := weight_le_of_sublist (location_sublist absolute)
  have start : weight ("" :: path.body) = 1 + weight path.body := rfl
  rw [FileTree.pathOf, String.utf8ByteSize_append, slash]
  by_cases top : path.location = []
  · have empty : String.utf8ByteSize (slashed []) = 0 := by decide
    have first : path.text.utf8ByteSize ≠ 0 :=
      fun zero => text_ne_empty absolute (String.utf8ByteSize_eq_zero_iff.mp zero)
    rw [top, empty]
    omega
  · have names := utf8ByteSize_slashed top
    omega

/-- The characters of the path of a location are those of any absolute path to it. -/
theorem mem_of_mem_pathOf_location {path : Path} (absolute : path.isAbsolute = true) {char : Char}
    (member : char ∈ (FileTree.pathOf path.location).text.toList) : char ∈ path.text.toList := by
  have start : '/' ∈ path.text.toList := by
    obtain ⟨rest, shape⟩ := isAbsolute_iff.mp absolute
    rw [shape]
    exact List.mem_cons_self
  rw [toList_pathOf] at member
  rcases List.mem_cons.mp member with rfl | member
  · exact start
  · rcases mem_slashed member with rfl | ⟨name, nameMember, inName⟩
    · exact start
    · have segment : name ∈ path.segments := by
        rw [segments_of_isAbsolute absolute]
        exact List.mem_cons_of_mem _ ((location_sublist absolute).mem nameMember)
      rw [← slashed_segments path, toList_slashed]
      exact List.mem_intercalate_of_mem (List.mem_map_of_mem segment) inName

end Path

end ChunkPrune
