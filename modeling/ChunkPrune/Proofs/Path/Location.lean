import Mathlib.Data.List.Basic
import ChunkPrune.FileTree.Resolve

/-!
# The location that an absolute path names

Read from the top and without links, the segments of an absolute path lead to one
location: idle segments stay, two points go up, and every other segment is a name.
Cleaning a path keeps its location, and the cleaned path is the path of that location.
-/

namespace ChunkPrune.Path

/-- A name that an entry of a directory can have. -/
structure IsName (name : String) : Prop where
  notIdle : isIdle name = false
  notUp : name ≠ ".."
  noSlash : '/' ∉ name.toList

/-- Where segments lead from a location when no link is on the way. -/
def follow (here : Location) : List String → Location
  | [] => here
  | segment :: rest =>
    if isIdle segment then follow here rest
    else if segment = ".." then follow here.dropLast rest
    else follow (here ++ [segment]) rest

def location (path : Path) : Location := follow [] path.segments

theorem IsName.ne_empty {name : String} (proper : IsName name) : name ≠ "" := by
  intro empty
  have idle := proper.notIdle
  rw [empty] at idle
  cases idle

theorem follow_append (here : Location) (left right : List String) :
    follow here (left ++ right) = follow (follow here left) right := by
  induction left generalizing here with
  | nil => rfl
  | cons segment rest inductionHypothesis =>
      simp only [List.cons_append, follow]
      split
      · exact inductionHypothesis here
      · split
        · exact inductionHypothesis here.dropLast
        · exact inductionHypothesis (here ++ [segment])

theorem follow_names {here names : Location} (proper : ∀ name ∈ names, IsName name) :
    follow here names = here ++ names := by
  induction names generalizing here with
  | nil => simp [follow]
  | cons name rest inductionHypothesis =>
      have first := proper name List.mem_cons_self
      rw [follow, first.notIdle, if_neg Bool.false_ne_true, if_neg first.notUp,
        inductionHypothesis fun other member => proper other (List.mem_cons_of_mem _ member)]
      simp

theorem follow_idle {here : Location} {segments : List String}
    (idle : ∀ segment ∈ segments, isIdle segment = true) : follow here segments = here := by
  induction segments with
  | nil => rfl
  | cons segment rest inductionHypothesis =>
      rw [follow, if_pos (idle segment List.mem_cons_self)]
      exact inductionHypothesis fun other member => idle other (List.mem_cons_of_mem _ member)

theorem isName_of_mem_follow {here : Location} {segments : List String}
    (proper : ∀ name ∈ here, IsName name)
    (noSlash : ∀ segment ∈ segments, '/' ∉ segment.toList) :
    ∀ name ∈ follow here segments, IsName name := by
  induction segments generalizing here with
  | nil => exact proper
  | cons segment rest inductionHypothesis =>
      have restNoSlash : ∀ other ∈ rest, '/' ∉ other.toList :=
        fun other member => noSlash other (List.mem_cons_of_mem _ member)
      rw [follow]
      split
      · exact inductionHypothesis proper restNoSlash
      · split
        · exact inductionHypothesis
            (fun name member => proper name ((List.dropLast_sublist here).mem member)) restNoSlash
        next notIdle notUp =>
          refine inductionHypothesis ?_ restNoSlash
          intro name member
          rcases List.mem_append.mp member with member | member
          · exact proper name member
          · obtain rfl := List.mem_singleton.mp member
            exact ⟨Bool.eq_false_iff.mpr notIdle, notUp, noSlash name List.mem_cons_self⟩

/-! ## Segments -/

theorem not_mem_of_mem_splitOn {separator : Char} {part : List Char} :
    ∀ {cs : List Char}, part ∈ cs.splitOn separator → separator ∉ part
  | [], member => by
      rw [List.splitOn_nil, List.mem_singleton] at member
      rw [member]
      exact List.not_mem_nil
  | c :: rest, member => by
      rw [List.splitOn_cons_eq_if_modifyHead] at member
      split at member
      · rcases List.mem_cons.mp member with rfl | member
        · exact List.not_mem_nil
        · exact not_mem_of_mem_splitOn member
      next different =>
        cases shape : rest.splitOn separator with
        | nil => exact absurd shape (List.splitOn_ne_nil separator rest)
        | cons head tail =>
            rw [shape, List.modifyHead_cons] at member
            have restParts : ∀ other ∈ rest.splitOn separator, separator ∉ other :=
              fun other otherMember => not_mem_of_mem_splitOn otherMember
            rw [shape] at restParts
            rcases List.mem_cons.mp member with rfl | member
            · have headFree : separator ∉ head := restParts head List.mem_cons_self
              intro found
              rcases List.mem_cons.mp found with rfl | found
              · exact different (beq_self_eq_true _)
              · exact headFree found
            · exact restParts part (List.mem_cons_of_mem _ member)

theorem splitOn_append_of_not_mem {separator : Char} {ending : List Char}
    (absent : separator ∉ ending) :
    ∀ cs : List Char, ∃ initial last,
      cs.splitOn separator = initial ++ [last] ∧
        (cs ++ ending).splitOn separator = initial ++ [last ++ ending]
  | [] => ⟨[], [], rfl, List.splitOn_eq_singleton absent⟩
  | c :: rest => by
      obtain ⟨initial, last, shape, longer⟩ := splitOn_append_of_not_mem absent rest
      rw [List.cons_append, List.splitOn_cons_eq_if_modifyHead,
        List.splitOn_cons_eq_if_modifyHead, shape, longer]
      split
      · exact ⟨[] :: initial, last, rfl, rfl⟩
      · cases initial with
        | nil => exact ⟨[], c :: last, rfl, rfl⟩
        | cons head tail => exact ⟨(c :: head) :: tail, last, rfl, rfl⟩

theorem slash_not_mem_segment {path : Path} {segment : String}
    (member : segment ∈ path.segments) : '/' ∉ segment.toList := by
  obtain ⟨part, partMember, rfl⟩ := List.mem_map.mp member
  rw [String.toList_ofList]
  exact not_mem_of_mem_splitOn partMember

theorem segments_ne_nil (path : Path) : path.segments ≠ [] := by
  simp [segments]

theorem isName_of_mem_location {path : Path} {name : String}
    (member : name ∈ path.location) : IsName name :=
  isName_of_mem_follow (fun _ absurdity => absurd absurdity List.not_mem_nil)
    (fun _ segment => slash_not_mem_segment segment) name member

theorem isAbsolute_iff {path : Path} :
    path.isAbsolute = true ↔ ∃ rest, path.text.toList = '/' :: rest := by
  rw [isAbsolute, Text.startsWith, Option.isSome_iff_exists]
  constructor
  · rintro ⟨rest, found⟩
    exact ⟨rest, Text.dropStart?_eq_some_iff.mp found⟩
  · rintro ⟨rest, shape⟩
    exact ⟨rest, Text.dropStart?_eq_some_iff.mpr shape⟩

theorem text_ne_empty {path : Path} (absolute : path.isAbsolute = true) : path.text ≠ "" := by
  intro empty
  obtain ⟨rest, shape⟩ := isAbsolute_iff.mp absolute
  rw [empty] at shape
  cases shape

theorem segments_of_isAbsolute {path : Path} (absolute : path.isAbsolute = true) :
    path.segments = "" :: path.body := by
  obtain ⟨rest, shape⟩ := isAbsolute_iff.mp absolute
  rw [body, if_pos absolute, segments, shape, List.splitOn_cons_eq_if_modifyHead,
    if_pos (beq_self_eq_true _)]
  rfl

theorem location_eq_follow_body {path : Path} (absolute : path.isAbsolute = true) :
    path.location = follow [] path.body := by
  rw [location, segments_of_isAbsolute absolute, follow, if_pos (by decide)]

/-! ## The path of a location -/

theorem toList_slashed (segments : List String) :
    (slashed segments).toList = ['/'].intercalate (segments.map String.toList) := by
  rw [slashed, String.toList_intercalate]
  rfl

theorem segments_slashed {texts : List String} (noSlash : ∀ text ∈ texts, '/' ∉ text.toList)
    (nonempty : texts ≠ []) :
    ((slashed texts).toList.splitOn '/').map String.ofList = texts := by
  rw [toList_slashed, List.splitOn_intercalate]
  · simp
  · intro part member
    obtain ⟨text, textMember, rfl⟩ := List.mem_map.mp member
    exact noSlash text textMember
  · simpa using nonempty

theorem toList_pathOf (names : Location) :
    (FileTree.pathOf names).text.toList = '/' :: (slashed names).toList := by
  rw [FileTree.pathOf, String.toList_append]
  rfl

theorem isAbsolute_pathOf (names : Location) : (FileTree.pathOf names).isAbsolute = true :=
  isAbsolute_iff.mpr ⟨_, toList_pathOf names⟩

theorem segments_pathOf {names : Location} (proper : ∀ name ∈ names, IsName name)
    (nonempty : names ≠ []) : (FileTree.pathOf names).segments = "" :: names := by
  rw [segments, toList_pathOf, List.splitOn_cons_eq_if_modifyHead,
    if_pos (beq_self_eq_true _), List.map_cons,
    segments_slashed (fun name member => (proper name member).noSlash) nonempty]

theorem body_pathOf {names : Location} (proper : ∀ name ∈ names, IsName name)
    (nonempty : names ≠ []) : (FileTree.pathOf names).body = names := by
  have whole := segments_of_isAbsolute (isAbsolute_pathOf names)
  rw [segments_pathOf proper nonempty] at whole
  exact (List.cons.inj whole).2.symm

theorem location_pathOf {names : Location} (proper : ∀ name ∈ names, IsName name) :
    (FileTree.pathOf names).location = names := by
  cases names with
  | nil => decide
  | cons name rest =>
      rw [location_eq_follow_body (isAbsolute_pathOf _), body_pathOf proper (List.cons_ne_nil _ _),
        follow_names proper, List.nil_append]

theorem segments_name {name : String} (proper : IsName name) : segments ⟨name⟩ = [name] := by
  rw [segments, List.splitOn_eq_singleton proper.noSlash, List.map_singleton,
    String.ofList_toList]

theorem isAbsolute_name {name : String} (proper : IsName name) :
    isAbsolute ⟨name⟩ = false := by
  rw [Bool.eq_false_iff]
  intro absolute
  obtain ⟨rest, shape⟩ := isAbsolute_iff.mp absolute
  exact proper.noSlash (shape ▸ List.mem_cons_self)

theorem filterMap_stepOf?_names {names : Location} (proper : ∀ name ∈ names, IsName name) :
    names.filterMap stepOf? = names.map Component.name := by
  induction names with
  | nil => rfl
  | cons name rest inductionHypothesis =>
      have first := proper name List.mem_cons_self
      have step : stepOf? name = some (.name name) := by
        rw [stepOf?, first.notIdle, if_neg Bool.false_ne_true, if_neg first.notUp]
      rw [List.filterMap_cons_some step, List.map_cons,
        inductionHypothesis fun other member => proper other (List.mem_cons_of_mem _ member)]

theorem components_pathOf {names : Location} (proper : ∀ name ∈ names, IsName name) :
    (FileTree.pathOf names).components = .root :: names.map Component.name := by
  rw [components, if_pos (isAbsolute_pathOf names)]
  cases names with
  | nil => rfl
  | cons name rest =>
      rw [body_pathOf proper (List.cons_ne_nil name rest), filterMap_stepOf?_names proper]

theorem map_name_injective : Function.Injective (List.map Component.name) :=
  List.map_injective_iff.mpr fun _ _ same => Component.name.inj same

theorem pathOf_injective {left right : Location} (leftProper : ∀ name ∈ left, IsName name)
    (rightProper : ∀ name ∈ right, IsName name)
    (same : FileTree.pathOf left = FileTree.pathOf right) : left = right := by
  have steps := congrArg components same
  rw [components_pathOf leftProper, components_pathOf rightProper] at steps
  exact map_name_injective (List.cons.inj steps).2

theorem sameSteps_pathOf_iff {left right : Location}
    (leftProper : ∀ name ∈ left, IsName name) (rightProper : ∀ name ∈ right, IsName name) :
    (FileTree.pathOf left).sameSteps (FileTree.pathOf right) = true ↔ left = right := by
  rw [sameSteps, components_pathOf leftProper, components_pathOf rightProper, beq_iff_eq,
    List.cons_inj_right]
  exact map_name_injective.eq_iff

/-! ## Cleaning -/

/-- The clean steps that lead to a location, the last one first. -/
def stepsBack (here : Location) : List Component :=
  (here.map Component.name).reverse ++ [.root]

theorem pushClean_up (here : Location) :
    pushClean (stepsBack here) .up = stepsBack here.dropLast := by
  rcases List.eq_nil_or_concat here with rfl | ⟨initial, last, rfl⟩
  · rfl
  · simp [stepsBack, pushClean]

theorem pushClean_name (here : Location) (name : String) :
    pushClean (stepsBack here) (.name name) = stepsBack (here ++ [name]) := by
  simp [stepsBack, pushClean]

theorem foldl_pushClean (here : Location) (segments : List String) :
    (segments.filterMap stepOf?).foldl pushClean (stepsBack here) =
      stepsBack (follow here segments) := by
  induction segments generalizing here with
  | nil => rfl
  | cons segment rest inductionHypothesis =>
      rw [follow]
      by_cases idle : isIdle segment = true
      · rw [List.filterMap_cons_none (by rw [stepOf?, if_pos idle]), if_pos idle]
        exact inductionHypothesis here
      · by_cases up : segment = ".."
        · have step : stepOf? segment = some .up := by rw [stepOf?, if_neg idle, if_pos up]
          rw [List.filterMap_cons_some step, List.foldl_cons, if_neg idle, if_pos up,
            pushClean_up]
          exact inductionHypothesis here.dropLast
        · have step : stepOf? segment = some (.name segment) := by
            rw [stepOf?, if_neg idle, if_neg up]
          rw [List.filterMap_cons_some step, List.foldl_cons, if_neg idle, if_neg up,
            pushClean_name]
          exact inductionHypothesis (here ++ [segment])

theorem map_text_names (names : Location) :
    (names.map Component.name).map Component.text = names := by
  rw [List.map_map]
  exact List.map_id names

theorem ofComponents_root (names : Location) :
    ofComponents (.root :: names.map Component.name) = FileTree.pathOf names := by
  rw [ofComponents, map_text_names, FileTree.pathOf]

/-- Cleaning an absolute path gives the path of its location. -/
theorem clean_eq_pathOf {path : Path} (absolute : path.isAbsolute = true) :
    path.clean = FileTree.pathOf path.location := by
  have steps : path.components.foldl pushClean [] = stepsBack path.location := by
    rw [components, if_pos absolute, location_eq_follow_body absolute]
    exact foldl_pushClean [] path.body
  rw [clean, steps, stepsBack, List.reverse_append, List.reverse_reverse]
  exact ofComponents_root path.location

end ChunkPrune.Path
