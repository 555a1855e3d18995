import ChunkPrune.Proofs.FileTree.Leads
import ChunkPrune.Proofs.Path.Climbs
import ChunkPrune.Proofs.Path.Text

/-!
# The name that a path ends in

A path that ends in a name has it as its last component. Joining and cleaning keep the name, and
a text after the path is a text after the name.
-/

namespace ChunkPrune.Path

/-- The last component of a path, when it is a name. -/
def fileName? (path : Path) : Option String :=
  match path.components.getLast? with
  | some (.name name) => some name
  | _ => none

/-- What stands after the last slash of a path is a name. -/
structure EndsIn (path : Path) (name : String) : Prop where
  isName : IsName name
  segments : ∃ initial, path.segments = initial ++ [name]

variable {path base : Path} {name suffix : String} {initial : List String}

/-! ## Components -/

/-- The components of a path in front of its last segment. -/
def stem (absolute : Bool) (initial : List String) : List Component :=
  if absolute then .root :: initial.filterMap stepOf?
  else if initial.head? = some "." then .here :: initial.filterMap stepOf?
  else initial.filterMap stepOf?

theorem components_of_segments (isName : IsName name)
    (segments : path.segments = initial ++ [name]) :
    path.components = stem path.isAbsolute initial ++ [.name name] := by
  have step : stepOf? name = some (.name name) := (Component.Plain.name isName).stepOf?_text
  have last : [name].filterMap stepOf? = [.name name] := by
    rw [List.filterMap_cons_some step, List.filterMap_nil]
  cases start : path.isAbsolute with
  | true =>
      -- the empty segment in front of the first slash is no step
      have whole := segments_of_isAbsolute start
      have idle : stepOf? "" = none := by decide
      have steps : path.body.filterMap stepOf? = (initial ++ [name]).filterMap stepOf? := by
        rw [← segments, whole, List.filterMap_cons_none idle]
      rw [components, if_pos start, steps, List.filterMap_append, last, stem, if_pos rfl,
        List.cons_append]
  | false =>
      have point : path.segments.head? = some "." ↔ initial.head? = some "." := by
        rw [segments]
        cases initial with
        | nil =>
            have noPoint : name ≠ "." := by
              intro same
              have busy := isName.notIdle
              rw [same] at busy
              cases busy
            simp [noPoint]
        | cons first rest => rfl
      rw [components_of_relative start, segments, List.filterMap_append, last, stem,
        if_neg Bool.false_ne_true]
      rw [segments] at point
      by_cases here : initial.head? = some "."
      · rw [if_pos (point.mpr here), if_pos here, List.cons_append]
      · rw [if_neg (mt point.mp here), if_neg here]

namespace EndsIn

theorem fileName?_eq (endsIn : path.EndsIn name) : path.fileName? = some name := by
  obtain ⟨initial, segments⟩ := endsIn.segments
  rw [fileName?, components_of_segments endsIn.isName segments, List.getLast?_concat]

/-- The text of the path ends as the name does. -/
theorem exists_text (endsIn : path.EndsIn name) : ∃ front, path.text = front ++ name := by
  obtain ⟨initial, segments⟩ := endsIn.segments
  have text := slashed_segments path
  rw [segments, slashed] at text
  by_cases alone : initial = []
  · refine ⟨"", ?_⟩
    rw [← text, alone]
    simp
  · refine ⟨slashed initial ++ "/", ?_⟩
    rw [← text, String.intercalate_append_of_ne_nil alone (by simp),
      String.intercalate_singleton, slashed]

theorem join (endsIn : path.EndsIn name) (base : Path) : (base.join path).EndsIn name := by
  refine ⟨endsIn.isName, ?_⟩
  obtain ⟨initial, segments⟩ := endsIn.segments
  by_cases absolute : path.isAbsolute = true
  · refine ⟨initial, ?_⟩
    rw [Path.join, if_pos absolute, segments]
  · by_cases empty : base.text = ""
    · refine ⟨initial, ?_⟩
      rw [Path.join, if_neg absolute, if_pos (by simp [empty]), empty, String.empty_append]
      exact segments
    · obtain ⟨front, -, -, -, -, joined⟩ :=
        segments_join_of_ne empty (Bool.eq_false_iff.mpr absolute)
      refine ⟨front ++ initial, ?_⟩
      rw [joined, segments, List.append_assoc]

/-- Cleaning keeps the last name: no step upwards comes after it. -/
theorem clean (endsIn : path.EndsIn name) : path.clean.EndsIn name := by
  refine ⟨endsIn.isName, ?_⟩
  obtain ⟨initial, segments⟩ := endsIn.segments
  cases start : path.isAbsolute with
  | true =>
      have place : path.location = follow [] initial ++ [name] := by
        rw [location, segments, follow_append]
        exact follow_names fun other member => List.mem_singleton.mp member ▸ endsIn.isName
      have below : path.location ≠ [] := by
        rw [place]
        exact List.append_ne_nil_of_right_ne_nil _ (List.cons_ne_nil _ _)
      refine ⟨"" :: follow [] initial, ?_⟩
      rw [clean_eq_pathOf start, segments_pathOf (fun _ => isName_of_mem_location) below, place,
        List.cons_append]
  | false =>
      -- the name is pushed last, and nothing takes it away
      obtain ⟨before, left⟩ : ∃ before, path.components.foldl pushClean [] =
          .name name :: before := by
        rw [components_of_segments endsIn.isName segments, List.foldl_append]
        exact ⟨_, rfl⟩
      have plain : ∀ step ∈ path.components.foldl pushClean [], step.Plain :=
        foldl_pushClean_plain (List.forall_mem_nil _)
          fun step member => plain_of_mem_components start member
      rw [left] at plain
      refine ⟨before.reverse.map Component.text, ?_⟩
      rw [Path.clean, left, segments_ofComponents
        (fun step member => plain step (List.mem_reverse.mp member)) (by simp),
        List.reverse_cons, List.map_append]
      rfl

/-! ## A text after the path -/

theorem isName_append (endsIn : path.EndsIn name) (long : 2 < suffix.length)
    (noSlash : '/' ∉ suffix.toList) : IsName (name ++ suffix) := by
  refine isName_of_endsWith (Text.endsWith_append name suffix) long ?_
  rw [String.toList_append, List.mem_append, not_or]
  exact ⟨endsIn.isName.noSlash, noSlash⟩

/-- A text after the path stands after its last name, and changes no other component. -/
theorem exists_components_append (endsIn : path.EndsIn name) (long : 2 < suffix.length)
    (noSlash : '/' ∉ suffix.toList) :
    ∃ front, path.components = front ++ [.name name] ∧
      (path.append suffix).components = front ++ [.name (name ++ suffix)] := by
  have longer := endsIn.isName_append long noSlash
  obtain ⟨initial, segments⟩ := endsIn.segments
  obtain ⟨front, last, shape, further⟩ := path.segments_append noSlash
  rw [segments] at shape
  obtain ⟨rfl, lasts⟩ := List.append_inj' shape rfl
  obtain rfl := (List.cons.inj lasts).1
  have filled : path.text ≠ "" := by
    obtain ⟨front, text⟩ := endsIn.exists_text
    intro empty
    rw [empty] at text
    exact endsIn.isName.ne_empty (String.append_eq_empty_iff.mp text.symm).2
  have start := isAbsolute_append filled suffix
  refine ⟨_, components_of_segments endsIn.isName segments, ?_⟩
  rw [components_of_segments longer further, start]

end EndsIn

end ChunkPrune.Path
