import ChunkPrune.Proofs.Path.Location

/-!
# Cleaned paths

A cleaned path is nothing but its components: put together again, they are the path. So two
cleaned paths with the same components are the same path. A cleaned path starts where the path
did, and when it never goes up, it is told by where it starts and the names that it passes.
-/

namespace ChunkPrune.Path

/-- A step of a cleaned relative path: upwards, or to a name. -/
inductive Component.Plain : Component → Prop
  | up : Plain .up
  | name {text : String} (isName : IsName text) : Plain (.name text)

namespace Component.Plain

variable {step : Component}

theorem stepOf?_text (plain : step.Plain) : stepOf? step.text = some step := by
  cases plain with
  | up => decide
  | name isName =>
      rw [text, stepOf?, isName.notIdle, if_neg Bool.false_ne_true, if_neg isName.notUp]

theorem noSlash (plain : step.Plain) : '/' ∉ step.text.toList := by
  cases plain with
  | up => decide
  | name isName => exact isName.noSlash

theorem notIdle (plain : step.Plain) : isIdle step.text = false := by
  cases plain with
  | up => decide
  | name isName => exact isName.notIdle

end Component.Plain

theorem plain_of_stepOf? {segment : String} {step : Component}
    (noSlash : '/' ∉ segment.toList) (taken : stepOf? segment = some step) : step.Plain := by
  rw [stepOf?] at taken
  split at taken
  · cases taken
  next busy =>
    split at taken
    · cases taken
      exact .up
    next down =>
      cases taken
      exact .name ⟨Bool.eq_false_iff.mpr busy, down, noSlash⟩

theorem components_of_relative {path : Path} (relative : path.isAbsolute = false) :
    path.components =
      if path.segments.head? = some "." then .here :: path.segments.filterMap stepOf?
      else path.segments.filterMap stepOf? := by
  simp only [components, body, relative, Bool.false_eq_true, if_false]

/-! ## Plain steps as a path -/

section Steps

variable {steps : List Component}

theorem ofComponents_plain (plain : ∀ step ∈ steps, step.Plain) (nonempty : steps ≠ []) :
    ofComponents steps = ⟨slashed (steps.map Component.text)⟩ := by
  cases steps with
  | nil => exact absurd rfl nonempty
  | cons first rest =>
      cases plain first List.mem_cons_self with
      | up => rfl
      | name isName => rfl

theorem segments_ofComponents (plain : ∀ step ∈ steps, step.Plain) (nonempty : steps ≠ []) :
    (ofComponents steps).segments = steps.map Component.text := by
  rw [ofComponents_plain plain nonempty, segments]
  refine segments_slashed ?_ (by simpa using nonempty)
  intro text member
  obtain ⟨step, stepMember, rfl⟩ := List.mem_map.mp member
  exact (plain step stepMember).noSlash

theorem isAbsolute_ofComponents (plain : ∀ step ∈ steps, step.Plain) :
    (ofComponents steps).isAbsolute = false := by
  cases steps with
  | nil => decide
  | cons first rest =>
      rw [Bool.eq_false_iff]
      intro absolute
      have segments := segments_of_isAbsolute absolute
      rw [segments_ofComponents plain (List.cons_ne_nil _ _), List.map_cons] at segments
      have busy := (plain first List.mem_cons_self).notIdle
      rw [(List.cons.inj segments).1] at busy
      cases busy

theorem components_ofComponents (plain : ∀ step ∈ steps, step.Plain) (nonempty : steps ≠ []) :
    (ofComponents steps).components = steps := by
  have relative := isAbsolute_ofComponents plain
  have read : (steps.map Component.text).filterMap stepOf? = steps := by
    rw [List.filterMap_map]
    exact (List.filterMap_congr fun step member => (plain step member).stepOf?_text).trans
      List.filterMap_some
  have noPoint : (steps.map Component.text).head? ≠ some "." := by
    intro point
    rw [List.head?_map, Option.map_eq_some_iff] at point
    obtain ⟨step, first, text⟩ := point
    have busy := (plain step (List.mem_of_head? first)).notIdle
    rw [text] at busy
    cases busy
  rw [components_of_relative relative, segments_ofComponents plain nonempty, if_neg noPoint, read]

end Steps

/-! ## Cleaning a relative path -/

theorem pushClean_plain {steps : List Component} {next : Component}
    (plain : ∀ step ∈ steps, step.Plain) (allowed : next = .here ∨ next.Plain) :
    ∀ step ∈ pushClean steps next, step.Plain := by
  rcases allowed with rfl | allowed
  · exact plain
  · cases allowed with
    | name isName => exact List.forall_mem_cons.mpr ⟨.name isName, plain⟩
    | up =>
        cases steps with
        | nil => exact List.forall_mem_cons.mpr ⟨.up, plain⟩
        | cons last rest =>
            have others := (List.forall_mem_cons.mp plain).2
            cases plain last List.mem_cons_self with
            | up => exact List.forall_mem_cons.mpr ⟨.up, plain⟩
            | name isName => exact others

theorem foldl_pushClean_plain {steps more : List Component}
    (plain : ∀ step ∈ steps, step.Plain) (allowed : ∀ next ∈ more, next = .here ∨ next.Plain) :
    ∀ step ∈ more.foldl pushClean steps, step.Plain := by
  induction more generalizing steps with
  | nil => exact plain
  | cons next rest inductionHypothesis =>
      exact inductionHypothesis (pushClean_plain plain (allowed next List.mem_cons_self))
        fun other member => allowed other (List.mem_cons_of_mem _ member)

theorem plain_of_mem_components {path : Path} (relative : path.isAbsolute = false)
    {step : Component} (member : step ∈ path.components) : step = .here ∨ step.Plain := by
  have taken : ∀ step ∈ path.segments.filterMap stepOf?, step.Plain := by
    intro step member
    obtain ⟨segment, segmentMember, taken⟩ := List.mem_filterMap.mp member
    exact plain_of_stepOf? (slash_not_mem_segment segmentMember) taken
  rw [components_of_relative relative] at member
  split at member
  · exact (List.mem_cons.mp member).imp_right (taken step)
  · exact Or.inr (taken step member)

theorem exists_clean_eq_ofComponents {path : Path} (relative : path.isAbsolute = false) :
    ∃ steps, (∀ step ∈ steps, step.Plain) ∧ path.clean = ofComponents steps := by
  have plain : ∀ step ∈ path.components.foldl pushClean [], step.Plain :=
    foldl_pushClean_plain (fun _ absurdity => absurd absurdity List.not_mem_nil)
      fun step member => plain_of_mem_components relative member
  exact ⟨_, fun step member => plain step (List.mem_reverse.mp member), rfl⟩

/-! ## What a cleaned path is told by -/

theorem isAbsolute_clean (path : Path) : path.clean.isAbsolute = path.isAbsolute := by
  cases start : path.isAbsolute with
  | true => rw [clean_eq_pathOf start, isAbsolute_pathOf]
  | false =>
      obtain ⟨steps, plain, shape⟩ := exists_clean_eq_ofComponents start
      rw [shape, isAbsolute_ofComponents plain]

theorem ofComponents_components_clean (path : Path) :
    ofComponents path.clean.components = path.clean := by
  cases start : path.isAbsolute with
  | true =>
      rw [clean_eq_pathOf start, components_pathOf fun _ => isName_of_mem_location,
        ofComponents_root]
  | false =>
      obtain ⟨steps, plain, shape⟩ := exists_clean_eq_ofComponents start
      rw [shape]
      by_cases nonempty : steps = []
      · rw [nonempty]
        decide
      · rw [components_ofComponents plain nonempty]

/-- Cleaned paths with the same components are the same path. -/
theorem sameSteps_clean_iff {path other : Path} :
    path.clean.sameSteps other.clean = true ↔ path.clean = other.clean := by
  rw [sameSteps, beq_iff_eq]
  constructor
  · intro same
    rw [← ofComponents_components_clean path, same, ofComponents_components_clean]
  · intro same
    rw [same]

theorem follow_segments_pathOf {names : Location} (proper : ∀ name ∈ names, IsName name)
    (here : Location) : follow here (FileTree.pathOf names).segments = here ++ names := by
  cases names with
  | nil =>
      rw [follow_idle (by decide), List.append_nil]
  | cons name rest =>
      rw [segments_pathOf proper (List.cons_ne_nil _ _), follow, if_pos (by decide),
        follow_names proper]

theorem exists_map_name {steps : List Component} (plain : ∀ step ∈ steps, step.Plain)
    (noUp : Component.up ∉ steps) :
    ∃ names : Location, (∀ name ∈ names, IsName name) ∧ steps = names.map Component.name := by
  induction steps with
  | nil => exact ⟨[], fun _ absurdity => absurd absurdity List.not_mem_nil, rfl⟩
  | cons first rest inductionHypothesis =>
      obtain ⟨names, proper, shape⟩ := inductionHypothesis (List.forall_mem_cons.mp plain).2
        fun later => noUp (List.mem_cons_of_mem _ later)
      cases plain first List.mem_cons_self with
      | up => exact absurd List.mem_cons_self noUp
      | name isName =>
          exact ⟨_ :: names, List.forall_mem_cons.mpr ⟨isName, proper⟩, by rw [shape]; rfl⟩

/-- A cleaned path that never goes up passes names only. -/
theorem exists_names_of_clean {path : Path} (noUp : Component.up ∉ path.clean.components) :
    ∃ names : Location, (∀ here, follow here path.clean.segments = here ++ names) ∧
      path.clean = if path.isAbsolute then FileTree.pathOf names
        else ofComponents (names.map Component.name) := by
  cases start : path.isAbsolute with
  | true =>
      rw [clean_eq_pathOf start]
      exact ⟨path.location, follow_segments_pathOf fun _ => isName_of_mem_location, rfl⟩
  | false =>
      obtain ⟨steps, plain, shape⟩ := exists_clean_eq_ofComponents start
      rw [shape] at noUp ⊢
      by_cases nonempty : steps = []
      · rw [nonempty]
        refine ⟨[], fun here => ?_, rfl⟩
        rw [follow_idle (by decide), List.append_nil]
      · rw [components_ofComponents plain nonempty] at noUp
        obtain ⟨names, proper, rfl⟩ := exists_map_name plain noUp
        refine ⟨names, fun here => ?_, rfl⟩
        rw [segments_ofComponents plain nonempty, map_text_names, follow_names proper]

/-- Two cleaned paths that never go up are the same path when they start and lead alike. -/
theorem clean_eq_of_follow {path other : Path} {here : Location}
    (start : path.isAbsolute = other.isAbsolute) (noUp : Component.up ∉ path.clean.components)
    (otherNoUp : Component.up ∉ other.clean.components)
    (same : follow here path.clean.segments = follow here other.clean.segments) :
    path.clean = other.clean := by
  obtain ⟨names, leads, shape⟩ := exists_names_of_clean noUp
  obtain ⟨others, otherLeads, otherShape⟩ := exists_names_of_clean otherNoUp
  rw [leads, otherLeads] at same
  rw [shape, otherShape, List.append_cancel_left same, start]

/-- A cleaned absolute path never goes up. -/
theorem up_not_mem_clean {path : Path} (absolute : path.isAbsolute = true) :
    Component.up ∉ path.clean.components := by
  rw [clean_eq_pathOf absolute, components_pathOf fun _ => isName_of_mem_location]
  simp

end ChunkPrune.Path
