import Mathlib.Data.List.Induction
import ChunkPrune.Restore
import ChunkPrune.Proofs.FileTree.Evolves
import ChunkPrune.Proofs.Path.Join
import ChunkPrune.Proofs.Table.Entry

/-!
# Paths below a directory as they are spelled

The path of an entry below a directory is spelled from the path of the directory as that was
given, clean or not. It leads to the same location as the clean path when it is not too long
and all directories on its way are there.
-/

namespace ChunkPrune

namespace Path

/-- The path of names below a directory. -/
def spelled (directory : Path) (names : List String) : Path :=
  names.foldl (fun path name => path.join ⟨name⟩) directory

variable {directory : Path}

theorem spelled_concat (directory : Path) (names : List String) (name : String) :
    directory.spelled (names ++ [name]) = (directory.spelled names).join ⟨name⟩ := by
  rw [spelled, List.foldl_append]
  rfl

theorem isAbsolute_spelled (absolute : directory.isAbsolute = true) (names : List String) :
    (directory.spelled names).isAbsolute = true := by
  induction names using List.reverseRecOn with
  | nil => exact absolute
  | append_singleton names name inductionHypothesis =>
      rw [spelled_concat]
      exact isAbsolute_join _ inductionHypothesis

theorem endsWith_spelled (directory : Path) (names : List String) {name ending : String}
    (ends : Text.endsWith name ending = true) :
    Text.endsWith (directory.spelled (names ++ [name])).text ending = true := by
  obtain ⟨front, shape⟩ := exists_join_text (directory.spelled names) ⟨name⟩
  rw [spelled_concat, shape]
  exact Text.endsWith_of_append ends

/-- The last name ends as the spelled path does. -/
theorem endsWith_of_spelled {names : List String} {name ending : String}
    (nonempty : (directory.spelled names).text ≠ "") (isName : IsName name)
    (noSlash : '/' ∉ ending.toList)
    (ends : Text.endsWith (directory.spelled (names ++ [name])).text ending = true) :
    Text.endsWith name ending = true := by
  obtain ⟨initial, last, segments, lastEnds⟩ := exists_last_segment ends noSlash
  obtain ⟨front, slash, -, -, -, joined⟩ :=
    segments_join_of_ne nonempty (isAbsolute_name isName)
  rw [segments_name isName, ← spelled_concat, segments] at joined
  obtain rfl : last = name := (List.cons.inj (List.append_inj' joined rfl).2).1
  exact lastEnds

/-- The characters of a spelled path are those of its parts. -/
theorem mem_spelled {names : List String} {char : Char}
    (member : char ∈ (directory.spelled names).text.toList) :
    char ∈ directory.text.toList ∨ char = '/' ∨ ∃ name ∈ names, char ∈ name.toList := by
  induction names using List.reverseRecOn with
  | nil => exact Or.inl member
  | append_singleton names name inductionHypothesis =>
      have cases : char ∈ (directory.spelled names).text.toList ∨ char = '/' ∨
          char ∈ name.toList := by
        rw [spelled_concat, join] at member
        split at member
        · exact Or.inr (Or.inr member)
        · split at member
          · rw [String.toList_append, List.mem_append] at member
            exact member.imp_right Or.inr
          · rw [String.toList_append, String.toList_append, List.mem_append,
              List.mem_append] at member
            rcases member with (member | member) | member
            · exact Or.inl member
            · exact Or.inr (Or.inl (List.mem_singleton.mp member))
            · exact Or.inr (Or.inr member)
      rcases cases with inBase | slash | inName
      · rcases inductionHypothesis inBase with inDirectory | slash | ⟨other, otherMember, found⟩
        · exact Or.inl inDirectory
        · exact Or.inr (Or.inl slash)
        · exact Or.inr (Or.inr ⟨other, List.mem_append_left _ otherMember, found⟩)
      · exact Or.inr (Or.inl slash)
      · exact Or.inr (Or.inr ⟨name, by simp, inName⟩)

/-- A text after the last name is a text after the path. -/
theorem text_join_append {base : Path} {name : String} (ending : String) (proper : IsName name)
    (longer : IsName (name ++ ending)) :
    (base.join ⟨name ++ ending⟩).text = (base.join ⟨name⟩).text ++ ending := by
  rw [join, join, isAbsolute_name proper, isAbsolute_name longer]
  simp only [Bool.false_eq_true, if_false]
  split
  · exact String.append_assoc.symm
  · exact String.append_assoc.symm

end Path

namespace FileTree

/-- Segments lead from a location to another one, through directories only. -/
def Passes (tree : FileTree) (here : Location) : List String → Location → Prop
  | [], there => here = there
  | segment :: rest, there =>
    if Path.isIdle segment then Passes tree here rest there
    else if segment = ".." then Passes tree here.dropLast rest there
    else segment.utf8ByteSize ≤ nameLimit ∧ tree.entry? (here ++ [segment]) = some .directory ∧
      Passes tree (here ++ [segment]) rest there

variable {tree : FileTree} {here there : Location} {segments : List String}

theorem Passes.eq_follow (passes : tree.Passes here segments there) :
    there = Path.follow here segments := by
  induction segments generalizing here with
  | nil => exact passes.symm
  | cons segment rest inductionHypothesis =>
      rw [Passes] at passes
      rw [Path.follow]
      split
      next idle =>
        rw [if_pos idle] at passes
        exact inductionHypothesis passes
      next busy =>
        rw [if_neg busy] at passes
        split
        next up =>
          rw [if_pos up] at passes
          exact inductionHypothesis passes
        next down =>
          rw [if_neg down] at passes
          exact inductionHypothesis passes.2.2

theorem Passes.mono {after : FileTree} (passes : tree.Passes here segments there)
    (kept : ∀ location, tree.entry? location = some .directory →
      after.entry? location = some .directory) : after.Passes here segments there := by
  induction segments generalizing here with
  | nil => exact passes
  | cons segment rest inductionHypothesis =>
      rw [Passes] at passes ⊢
      split
      next idle =>
        rw [if_pos idle] at passes
        exact inductionHypothesis passes
      next busy =>
        rw [if_neg busy] at passes
        split
        next up =>
          rw [if_pos up] at passes
          exact inductionHypothesis passes
        next down =>
          rw [if_neg down] at passes
          exact ⟨passes.1, kept _ passes.2.1, inductionHypothesis passes.2.2⟩

theorem passes_append {left right : List String} :
    tree.Passes here (left ++ right) there ↔
      ∃ middle, tree.Passes here left middle ∧ tree.Passes middle right there := by
  induction left generalizing here with
  | nil => simp [Passes]
  | cons segment rest inductionHypothesis =>
      rw [List.cons_append, Passes]
      simp only [Passes]
      split
      · exact inductionHypothesis
      · split
        · exact inductionHypothesis
        · rw [inductionHypothesis]
          constructor
          · rintro ⟨fits, isDirectory, middle, first, second⟩
            exact ⟨middle, ⟨fits, isDirectory, first⟩, second⟩
          · rintro ⟨middle, ⟨fits, isDirectory, first⟩, second⟩
            exact ⟨fits, isDirectory, middle, first, second⟩

theorem walk_of_passes {follow : Bool} {links : Nat} {rest : List String}
    (passes : tree.Passes here segments there) :
    tree.walk follow links here (segments ++ rest) = tree.walk follow links there rest := by
  induction segments generalizing here with
  | nil => rw [passes, List.nil_append]
  | cons segment others inductionHypothesis =>
      rw [Passes] at passes
      rw [List.cons_append, walk]
      split
      next idle =>
        rw [if_pos idle] at passes
        exact inductionHypothesis passes
      next busy =>
        rw [if_neg busy] at passes
        split
        next up =>
          rw [if_pos up] at passes
          exact inductionHypothesis passes
        next down =>
          rw [if_neg down] at passes
          obtain ⟨fits, isDirectory, further⟩ := passes
          rw [if_neg (Nat.not_lt.mpr fits)]
          simp only [isDirectory]
          exact inductionHypothesis further

/-- How a walk goes with no link at its first name: through it, or to a place there, where only
slashes may come after it. -/
inductive Goes (tree : FileTree) (follow : Bool) (links : Nat) (here : Location) (name : String)
    (rest : List String) (place : Place) : Prop
  | on (passes : tree.Passes here [name] (Path.follow here [name]))
      (further : tree.walk follow links (Path.follow here [name]) rest = .ok place)
  | last (leads : Path.follow here [name] = here ++ [name])
      (busy : Path.isIdle name = false) (down : name ≠ "..")
      (fits : name.utf8ByteSize ≤ nameLimit)
      (noDirectory : tree.entry? (here ++ [name]) ≠ some .directory) (isLast : rest = [])
      (same : place = tree.placeAt (here ++ [name]))
  | slash (leads : Path.follow here [name] = here ++ [name]) (blank : rest.all (· == "") = true)
      (same : place = .vacant (here ++ [name]) true ∨ place = .slashed (here ++ [name]))

theorem goes_of_walk {follow : Bool} {links : Nat} {name : String} {rest : List String}
    {place : Place}
    (unlinked : ∀ target, tree.entry? (Path.follow here [name]) ≠ some (.link target))
    (reached : tree.walk follow links here (name :: rest) = .ok place) :
    tree.Goes follow links here name rest place := by
  rw [walk] at reached
  by_cases idle : Path.isIdle name = true
  · have stays : Path.follow here [name] = here := by rw [Path.follow, if_pos idle, Path.follow]
    rw [if_pos idle] at reached
    exact .on (by rw [Passes, if_pos idle, Passes, stays]) (by rw [stays]; exact reached)
  · rw [if_neg idle] at reached
    by_cases up : name = ".."
    · have rises : Path.follow here [name] = here.dropLast := by
        rw [Path.follow, if_neg idle, if_pos up, Path.follow]
      rw [if_pos up] at reached
      exact .on (by rw [Passes, if_neg idle, if_pos up, Passes, rises])
        (by rw [rises]; exact reached)
    · have leads : Path.follow here [name] = here ++ [name] := by
        rw [Path.follow, if_neg idle, if_neg up, Path.follow]
      have busy : Path.isIdle name = false := Bool.eq_false_iff.mpr idle
      rw [leads] at unlinked
      rw [if_neg up] at reached
      split at reached
      · cases reached
      next fits =>
        have fits := Nat.not_lt.mp fits
        cases found : tree.entry? (here ++ [name]) with
        | none =>
            simp only [found] at reached
            split at reached
            next blank =>
              cases reached
              cases rest with
              | nil =>
                  exact .last leads busy up fits (by simp [found]) rfl (by rw [placeAt, found]; rfl)
              | cons other others => exact .slash leads blank (Or.inl rfl)
            · cases reached
        | some entry =>
            cases entry with
            | link target => exact absurd found (unlinked target)
            | directory =>
                simp only [found] at reached
                refine .on ?_ (by rw [leads]; exact reached)
                rw [Passes, if_neg idle, if_neg up, leads]
                exact ⟨fits, found, rfl⟩
            | file content =>
                simp only [found] at reached
                split at reached
                next isLast =>
                  cases reached
                  exact .last leads busy up fits (by simp [found]) (List.isEmpty_iff.mp isLast)
                    (by rw [placeAt, found])
                · split at reached
                  next blank =>
                    cases reached
                    exact .slash leads blank (Or.inr rfl)
                  · cases reached

/-- A walk that ends at a directory, with no link on its way, has passed directories only. -/
theorem passes_of_unlinked
    (unlinked : ∀ front, front <+: segments → ∀ target,
      tree.entry? (Path.follow here front) ≠ some (.link target)) {follow : Bool} {links : Nat}
    (reached : tree.walk follow links here segments = .ok (.occupied there .directory)) :
    tree.Passes here segments there := by
  induction segments generalizing here with
  | nil =>
      rw [walk] at reached
      cases reached
      rfl
  | cons segment rest inductionHypothesis =>
      have next := unlinked [segment] (List.cons_prefix_cons.mpr ⟨rfl, List.nil_prefix⟩)
      cases goes_of_walk next reached with
      | on passes further =>
          have others : tree.Passes (Path.follow here [segment]) rest there := by
            refine inductionHypothesis (fun front stem target => ?_) further
            rw [← Path.follow_append]
            exact unlinked (segment :: front) (List.cons_prefix_cons.mpr ⟨rfl, stem⟩) target
          have whole : tree.Passes here ([segment] ++ rest) there :=
            passes_append.mpr ⟨_, passes, others⟩
          exact whole
      | last leads busy down fits noDirectory isLast same =>
          exact absurd (placeAt_eq_occupied same.symm).2 noDirectory
      | slash leads blank same =>
          rcases same with same | same
          · cases same
          · cases same

theorem passes_of_walk (linkFree : tree.LinkFree) {follow : Bool} {links : Nat}
    (reached : tree.walk follow links here segments = .ok (.occupied there .directory)) :
    tree.Passes here segments there :=
  passes_of_unlinked (fun _ _ target => linkFree _ target) reached

/-! ## Entering a directory -/

/-- A path leads to a directory. -/
structure Enters (tree : FileTree) (directory : Path) : Prop where
  absolute : directory.isAbsolute = true
  noNul : directory.text.toList.contains '\x00' = false
  short : directory.text.utf8ByteSize < pathBound
  passes : tree.Passes [] directory.segments directory.location

variable {directory : Path}

theorem resolve_of_isAbsolute {path : Path} (tree : FileTree) (follow : Bool)
    (absolute : path.isAbsolute = true) (noNul : path.text.toList.contains '\x00' = false)
    (short : path.text.utf8ByteSize < pathBound) :
    tree.resolve follow path = tree.walk follow linkLimit [] path.segments := by
  rw [resolve, start, if_pos absolute, if_neg (by rw [noNul]; exact Bool.false_ne_true),
    if_neg (Path.text_ne_empty absolute), if_neg (Nat.not_le.mpr short)]

theorem Enters.lookup (enters : tree.Enters directory) (follow : Bool) :
    tree.lookup follow directory = .ok (directory.location, .directory) := by
  have walked : tree.walk follow linkLimit [] (directory.segments ++ []) = _ :=
    walk_of_passes enters.passes
  rw [List.append_nil, walk] at walked
  rw [FileTree.lookup, resolve_of_isAbsolute tree follow enters.absolute enters.noNul enters.short,
    walked]

theorem enters_of_lookup (linkFree : tree.LinkFree) (absolute : directory.isAbsolute = true)
    {follow : Bool} (found : tree.lookup follow directory = .ok (there, .directory)) :
    tree.Enters directory := by
  obtain ⟨⟨noNul, -, short⟩, walked⟩ := resolve_eq_ok_iff.mp (lookup_eq_ok_iff.mp found)
  rw [start, if_pos absolute] at walked
  have passes := passes_of_walk linkFree walked
  have same : there = directory.location := passes.eq_follow
  exact ⟨absolute, noNul, short, same ▸ passes⟩

theorem enters_of_isDirectory (linkFree : tree.LinkFree) (absolute : directory.isAbsolute = true)
    (isDirectory : tree.isDirectory directory = true) : tree.Enters directory := by
  obtain ⟨location, found⟩ := isDirectory_iff.mp isDirectory
  exact enters_of_lookup linkFree absolute found

theorem Enters.mono {after : FileTree} (enters : tree.Enters directory)
    (kept : ∀ location, tree.entry? location = some .directory →
      after.entry? location = some .directory) : after.Enters directory :=
  ⟨enters.absolute, enters.noNul, enters.short, enters.passes.mono kept⟩

/-! ## Reaching an entry below it -/

theorem passes_join {base : Path} {name : String} (absolute : base.isAbsolute = true)
    (proper : Path.IsName name) (passes : tree.Passes [] base.segments there) :
    ∃ front, (base.join ⟨name⟩).segments = front ++ [name] ∧ tree.Passes [] front there := by
  obtain ⟨front, slash, slashed, whole, joined⟩ :=
    Path.segments_join absolute (Path.isAbsolute_name proper)
  refine ⟨front, by rw [joined, Path.segments_name proper], ?_⟩
  rw [whole, passes_append] at passes
  obtain ⟨middle, first, last⟩ := passes
  rcases slashed with rfl | rfl
  · exact last ▸ first
  · have same : middle = there := last
    exact same ▸ first

theorem passes_spelled (enters : tree.Enters directory) {names : Location}
    (proper : ∀ name ∈ names, Path.IsName name) (opened : tree.Open directory.location names) :
    tree.Passes [] (directory.spelled names).segments (directory.location ++ names) := by
  induction names using List.reverseRecOn with
  | nil => simpa [Path.spelled] using enters.passes
  | append_singleton names name inductionHypothesis =>
      have nameProper := proper name (by simp)
      obtain ⟨opened, fits, isDirectory⟩ := opened.last_fits
      have before := inductionHypothesis
        (fun other member => proper other (by simp [member])) opened
      obtain ⟨front, segments, passes⟩ :=
        passes_join (Path.isAbsolute_spelled enters.absolute names) nameProper before
      rw [Path.spelled_concat, segments, passes_append]
      refine ⟨_, passes, ?_⟩
      rw [Passes, nameProper.notIdle, if_neg Bool.false_ne_true, if_neg nameProper.notUp]
      exact ⟨fits, isDirectory, by simp [Passes]⟩

/-- A path spelled from a directory leads through the names to where its last name is looked
up. -/
theorem resolve_spelled (enters : tree.Enters directory) {names : Location} {last : String}
    (proper : ∀ name ∈ names, Path.IsName name) (lastProper : Path.IsName last)
    (opened : tree.Open directory.location names)
    (noNul : (directory.spelled (names ++ [last])).text.toList.contains '\x00' = false)
    (short : (directory.spelled (names ++ [last])).text.utf8ByteSize < pathBound)
    (follow : Bool) :
    tree.resolve follow (directory.spelled (names ++ [last])) =
      tree.walk follow linkLimit (directory.location ++ names) [last] := by
  have absolute := Path.isAbsolute_spelled enters.absolute (names ++ [last])
  obtain ⟨front, segments, passes⟩ := passes_join
    (Path.isAbsolute_spelled enters.absolute names) lastProper (passes_spelled enters proper opened)
  rw [← Path.spelled_concat] at segments
  rw [resolve_of_isAbsolute tree follow absolute noNul short, segments, walk_of_passes passes]

/-- A path spelled from a directory reaches the entry that its names lead to. -/
theorem reaches_spelled (linkFree : tree.LinkFree) (enters : tree.Enters directory)
    {names : Location} {last : String} (proper : ∀ name ∈ names, Path.IsName name)
    (lastProper : Path.IsName last) (opened : tree.Open directory.location names)
    (fits : last.utf8ByteSize ≤ nameLimit)
    (noNul : (directory.spelled (names ++ [last])).text.toList.contains '\x00' = false)
    (short : (directory.spelled (names ++ [last])).text.utf8ByteSize < pathBound) :
    tree.Reaches (directory.spelled (names ++ [last])) (directory.location ++ names ++ [last]) :=
  fun follow => (resolve_spelled enters proper lastProper opened noNul short follow).trans
    (walk_last linkFree lastProper fits)

/-! ## What a walk finds -/

theorem isPrefixOf?_eq_some_iff {left right rest : Location} :
    left.isPrefixOf? right = some rest ↔ right = left ++ rest := by
  induction left generalizing right with
  | nil => simp [List.isPrefixOf?, eq_comm]
  | cons name names inductionHypothesis =>
      cases right with
      | nil => simp [List.isPrefixOf?]
      | cons other others =>
          rw [List.isPrefixOf?]
          by_cases same : name = other
          · simp [same, inductionHypothesis]
          · simp [same, Ne.symm same]

theorem mem_below_iff {location names : Location} {entry : Entry} :
    (names, entry) ∈ tree.below location ↔
      names ≠ [] ∧ tree.entries.get? (location ++ names) = some entry := by
  rw [below, List.mem_filterMap, ← Table.mem_entries_iff]
  constructor
  · rintro ⟨⟨key, found⟩, member, matched⟩
    simp only at matched
    split at matched
    next name rest shape =>
      cases matched
      exact ⟨List.cons_ne_nil _ _, isPrefixOf?_eq_some_iff.mp shape ▸ member⟩
    · cases matched
  · rintro ⟨nonempty, member⟩
    refine ⟨_, member, ?_⟩
    have matched : location.isPrefixOf? (location ++ names) = some names :=
      isPrefixOf?_eq_some_iff.mpr rfl
    simp only [matched]
    cases names with
    | nil => exact absurd rfl nonempty
    | cons name rest => rfl

/-- A walk from a directory lists the entries below it, by their spelled paths. -/
theorem mem_entriesBelow_iff (enters : tree.Enters directory) {path : Path} {entry : Entry} :
    (path, entry) ∈ tree.entriesBelow directory ↔
      ∃ names, names ≠ [] ∧ path = directory.spelled names ∧
        tree.entries.get? (directory.location ++ names) = some entry := by
  rw [entriesBelow, enters.lookup true, List.mem_map]
  constructor
  · rintro ⟨⟨names, found⟩, member, same⟩
    cases same
    obtain ⟨nonempty, there⟩ := mem_below_iff.mp member
    exact ⟨names, nonempty, rfl, there⟩
  · rintro ⟨names, nonempty, rfl, there⟩
    exact ⟨(names, entry), mem_below_iff.mpr ⟨nonempty, there⟩, rfl⟩

end FileTree

end ChunkPrune
