import ChunkPrune.Proofs.Path.Cleaned
import ChunkPrune.Proofs.Path.Join

/-!
# Steps upwards on a cleaned path

On a cleaned path, steps upwards stand only at the start, before all names. So a cleaned path
that starts with the steps of another one goes on with names, unless the other one climbs: it is
nothing but steps upwards, and what goes on from it may climb further.
-/

namespace ChunkPrune.Path

/-- The second step can stand behind the first on a cleaned path. -/
inductive Component.Precedes : Component → Component → Prop
  | up : Precedes .up .up
  | name (step : Component) {text : String} (isName : IsName text) : Precedes step (.name text)

/-- The cleaned path is nothing but steps upwards. -/
def Climbs (path : Path) : Prop := ∀ step ∈ path.clean.components, step = .up

instance (path : Path) : Decidable path.Climbs :=
  inferInstanceAs (Decidable (∀ step ∈ path.clean.components, step = .up))

/-- The path has the steps of the cleaned base and then names, one at least. -/
def StrictlyInside (path base : Path) : Prop :=
  ∃ names : Location, names ≠ [] ∧ (∀ name ∈ names, IsName name) ∧
    path.components = base.clean.components ++ names.map .name

/-! ## The order of the steps -/

theorem pairwise_names (first : Component) {names : Location}
    (proper : ∀ name ∈ names, IsName name) :
    (first :: names.map Component.name).Pairwise Component.Precedes := by
  induction names generalizing first with
  | nil => exact List.pairwise_singleton _ _
  | cons name rest inductionHypothesis =>
      refine List.pairwise_cons.mpr ⟨?_, inductionHypothesis (.name name) fun other member =>
        proper other (List.mem_cons_of_mem _ member)⟩
      intro next member
      obtain ⟨text, textMember, rfl⟩ := List.mem_map.mp member
      exact .name first (proper text textMember)

/-- One more step on a clean path, of which the last step stands first. -/
theorem pairwise_pushClean {steps : List Component} {next : Component}
    (plain : ∀ step ∈ steps, step.Plain) (allowed : next = .here ∨ next.Plain)
    (ordered : steps.Pairwise fun later earlier => earlier.Precedes later) :
    (pushClean steps next).Pairwise fun later earlier => earlier.Precedes later := by
  rcases allowed with rfl | allowed
  · exact ordered
  · cases allowed with
    | name isName => exact List.pairwise_cons.mpr ⟨fun step _ => .name step isName, ordered⟩
    | up =>
        cases steps with
        | nil => exact List.pairwise_singleton _ _
        | cons last rest =>
            obtain ⟨before, others⟩ := List.pairwise_cons.mp ordered
            cases plain last List.mem_cons_self with
            | name isName => exact others
            | up =>
                refine List.pairwise_cons.mpr ⟨fun step member => ?_, ordered⟩
                rcases List.mem_cons.mp member with rfl | member
                · exact .up
                · exact before step member

theorem pairwise_foldl_pushClean {steps more : List Component}
    (plain : ∀ step ∈ steps, step.Plain) (allowed : ∀ next ∈ more, next = .here ∨ next.Plain)
    (ordered : steps.Pairwise fun later earlier => earlier.Precedes later) :
    (more.foldl pushClean steps).Pairwise fun later earlier => earlier.Precedes later := by
  induction more generalizing steps with
  | nil => exact ordered
  | cons next rest inductionHypothesis =>
      have first := allowed next List.mem_cons_self
      exact inductionHypothesis (pushClean_plain plain first)
        (fun other member => allowed other (List.mem_cons_of_mem _ member))
        (pairwise_pushClean plain first ordered)

/-- A cleaned relative path is a point, or the steps that are left of it. -/
theorem components_clean_of_relative {path : Path} (relative : path.isAbsolute = false)
    {steps : List Component} (left : path.components.foldl pushClean [] = steps) :
    path.clean.components = if steps = [] then [.here] else steps.reverse := by
  have plain : ∀ step ∈ path.components.foldl pushClean [], step.Plain :=
    foldl_pushClean_plain (fun _ absurdity => absurd absurdity List.not_mem_nil)
      fun step member => plain_of_mem_components relative member
  rw [left] at plain
  rw [clean, left]
  split
  next empty =>
    rw [empty]
    decide
  next nonempty =>
    exact components_ofComponents (fun step member => plain step (List.mem_reverse.mp member))
      (by simpa using nonempty)

theorem pairwise_clean (path : Path) :
    path.clean.components.Pairwise Component.Precedes := by
  cases start : path.isAbsolute with
  | true =>
      rw [clean_eq_pathOf start, components_pathOf fun _ => isName_of_mem_location]
      exact pairwise_names .root fun _ => isName_of_mem_location
  | false =>
      rw [components_clean_of_relative start rfl]
      split
      · exact List.pairwise_singleton _ _
      · exact List.pairwise_reverse.mpr <| pairwise_foldl_pushClean
          (fun _ absurdity => absurd absurdity List.not_mem_nil)
          (fun step member => plain_of_mem_components start member) List.Pairwise.nil

/-! ## Going on from a path -/

/-- What goes on from a path that does not climb passes names only. -/
theorem strictlyInside_of_isUnder {path base : Path} (level : ¬ base.Climbs)
    (under : path.clean.isUnder base.clean = true)
    (apart : path.clean.sameSteps base.clean = false) : path.clean.StrictlyInside base := by
  obtain ⟨rest, shape⟩ := List.isPrefixOf_iff_prefix.mp under
  obtain ⟨step, member, down⟩ : ∃ step ∈ base.clean.components, step ≠ .up := by
    simpa [Climbs] using level
  have ordered := path.pairwise_clean
  rw [← shape] at ordered
  have behind : ∀ next ∈ rest, ∃ text, IsName text ∧ next = .name text := by
    intro next nextMember
    cases (List.pairwise_append.mp ordered).2.2 step member next nextMember with
    | up => exact absurd rfl down
    | name _ isName => exact ⟨_, isName, rfl⟩
  obtain ⟨names, proper, rfl⟩ : ∃ names : Location, (∀ name ∈ names, IsName name) ∧
      rest = names.map Component.name := by
    apply exists_map_name
    · intro next nextMember
      obtain ⟨text, isName, rfl⟩ := behind next nextMember
      exact .name isName
    · intro climbs
      obtain ⟨text, -, other⟩ := behind .up climbs
      cases other
  refine ⟨names, ?_, proper, shape.symm⟩
  rintro rfl
  rw [sameSteps, ← shape, List.map_nil, List.append_nil, beq_self_eq_true] at apart
  cases apart

/-- A relative path that is joined to a relative one adds its steps. -/
theorem components_join {base path : Path} (nonempty : base.text ≠ "")
    (baseRelative : base.isAbsolute = false) (relative : path.isAbsolute = false) :
    (base.join path).isAbsolute = false ∧
      (base.join path).components = base.components ++ path.segments.filterMap stepOf? := by
  have joinedRelative : (base.join path).isAbsolute = false := by
    rw [join, if_neg (by rw [relative]; exact Bool.false_ne_true)]
    split
    · exact (isAbsolute_append nonempty path.text).trans baseRelative
    · rw [String.append_assoc]
      exact (isAbsolute_append nonempty ("/" ++ path.text)).trans baseRelative
  obtain ⟨front, slash, started, slashed, whole, joined⟩ := segments_join_of_ne nonempty relative
  have idle : slash.filterMap stepOf? = [] := by
    rcases slashed with rfl | rfl
    · rfl
    · decide
  have head : (base.join path).segments.head? = base.segments.head? := by
    rw [whole, joined, List.head?_append_of_ne_nil _ started,
      List.head?_append_of_ne_nil _ started]
  refine ⟨joinedRelative, ?_⟩
  rw [components_of_relative joinedRelative, components_of_relative baseRelative, head, joined,
    whole, List.filterMap_append, List.filterMap_append, idle, List.append_nil]
  split
  · rw [List.cons_append]
  · rfl

/-- From a path that climbs, a name can climb further. -/
theorem components_climb {path : Path} (climbs : path.Climbs) {name : String}
    (isName : IsName name) :
    (path.join ⟨".." ++ "/" ++ name⟩).clean.components =
      path.clean.components ++ [.up, .name name] := by
  have start : path.isAbsolute = false := by
    rw [Bool.eq_false_iff]
    intro absolute
    have root := climbs .root (by
      rw [clean_eq_pathOf absolute, components_pathOf fun _ => isName_of_mem_location]
      exact List.mem_cons_self)
    cases root
  have nonempty : path.text ≠ "" := by
    intro empty
    have point : path = ⟨""⟩ := by
      cases path
      exact congrArg Path.mk empty
    rw [point] at climbs
    exact absurd climbs (by decide)
  have relative : isAbsolute ⟨".." ++ "/" ++ name⟩ = false := by
    have upwards : (⟨".."⟩ : Path).text ≠ "" := by decide
    rw [String.append_assoc]
    exact isAbsolute_append upwards ("/" ++ name)
  have segments : segments ⟨".." ++ "/" ++ name⟩ = ["..", name] := by
    rw [segments_slash, segments_name isName]
    rfl
  have step : stepOf? name = some (.name name) := (Component.Plain.name isName).stepOf?_text
  have taken : ["..", name].filterMap stepOf? = [.up, .name name] := by
    have upwards : stepOf? ".." = some .up := by decide
    rw [List.filterMap_cons_some upwards, List.filterMap_cons_some step, List.filterMap_nil]
  obtain ⟨joinedRelative, joined⟩ := components_join nonempty start relative
  have whole := components_clean_of_relative start rfl
  cases left : path.components.foldl pushClean [] with
  | nil =>
      rw [if_pos left] at whole
      cases climbs .here (whole ▸ List.mem_cons_self)
  | cons last rest =>
      rw [left, if_neg (List.cons_ne_nil _ _)] at whole
      obtain rfl : last = .up := climbs last (by simp [whole])
      have further : (path.join ⟨".." ++ "/" ++ name⟩).components.foldl pushClean [] =
          .name name :: .up :: .up :: rest := by
        rw [joined, List.foldl_append, left, segments, taken]
        rfl
      rw [components_clean_of_relative joinedRelative further, if_neg (List.cons_ne_nil _ _),
        whole]
      simp

end ChunkPrune.Path
