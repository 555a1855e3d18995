import ChunkPrune.Proofs.FileTree.OnDisk

/-!
# Directories as they are spelled

The path of an output directory may be relative, and it may have points or a slash at its end. The
paths below it are spelled from it: their segments are those of the directory, without the slash,
and then the names. In a tree without links such a path leads to the entry that its names lead to
from the directory, if it is not refused for its text.
-/

namespace ChunkPrune

namespace Path

variable {base path directory : Path} {names : List String}

theorem join_eq_append (relative : path.isAbsolute = false) :
    ∃ slash, base.join path = base.append (slash ++ path.text) := by
  rw [join, if_neg (by rw [relative]; exact Bool.false_ne_true)]
  split
  · exact ⟨"", by rw [append, String.empty_append]⟩
  · exact ⟨"/", by rw [append, String.append_assoc]⟩

/-- The paths below a directory start as the directory does, and are not empty. -/
theorem start_spelled (nonempty : directory.text ≠ "") (proper : ∀ name ∈ names, IsName name) :
    (directory.spelled names).text ≠ "" ∧
      (directory.spelled names).isAbsolute = directory.isAbsolute := by
  induction names using List.reverseRecOn with
  | nil => exact ⟨nonempty, rfl⟩
  | append_singleton names name inductionHypothesis =>
      obtain ⟨before, start⟩ :=
        inductionHypothesis fun other member => proper other (by simp [member])
      obtain ⟨slash, joined⟩ :=
        join_eq_append (isAbsolute_name (proper name (by simp)))
      rw [spelled_concat, joined]
      refine ⟨?_, (isAbsolute_append before _).trans start⟩
      intro empty
      exact before (String.append_eq_empty_iff.mp empty).1

/-- The segments of the paths below a directory are those of the directory, but for an empty one
after a last slash, and the names. -/
theorem exists_stem_spelled (nonempty : directory.text ≠ "") :
    ∃ front slash, (slash = [] ∨ slash = [""]) ∧ directory.segments = front ++ slash ∧
      ∀ names, names ≠ [] → (∀ name ∈ names, IsName name) →
        (directory.spelled names).segments = front ++ names := by
  obtain ⟨front, slash, -, slashed, whole, joined⟩ := exists_stem nonempty
  refine ⟨front, slash, slashed, whole, fun names more proper => ?_⟩
  induction names using List.reverseRecOn with
  | nil => exact absurd rfl more
  | append_singleton names name inductionHypothesis =>
      have isName := proper name (by simp)
      have others : ∀ name ∈ names, IsName name :=
        fun other member => proper other (by simp [member])
      rw [spelled_concat]
      rcases List.eq_nil_or_concat names with rfl | ⟨initial, last, shape⟩
      · rw [List.nil_append, ← segments_name isName]
        exact joined ⟨name⟩ (isAbsolute_name isName)
      · -- the path so far ends with a name, so nothing of it is dropped
        have before := inductionHypothesis (by simp [shape]) others
        obtain ⟨stem, rest, -, idle, split, further⟩ := segments_join_of_ne
          (start_spelled nonempty others).1 (isAbsolute_name isName)
        rw [segments_name isName] at further
        rcases idle with rfl | rfl
        · rw [further, ← List.append_assoc, ← before, split, List.append_nil]
        · have ends := congrArg List.getLast? (before.symm.trans split)
          rw [shape, List.concat_eq_append, ← List.append_assoc, List.getLast?_concat,
            List.getLast?_concat] at ends
          have lastName := others last (by simp [shape])
          exact absurd (Option.some.inj ends) lastName.ne_empty

end Path

namespace FileTree

variable {tree after : FileTree} {directory path : Path} {top : Location} {names : Location}
  {last : String}

/-- Names of open directories are passed. -/
theorem Open.passes {here : Location} (opened : tree.Open here names)
    (proper : ∀ name ∈ names, Path.IsName name) : tree.Passes here names (here ++ names) := by
  induction names generalizing here with
  | nil => exact (List.append_nil here).symm
  | cons name rest inductionHypothesis =>
      obtain ⟨isName, others⟩ := List.forall_mem_cons.mp proper
      obtain ⟨fits, isDirectory, further⟩ := opened
      rw [Passes, isName.notIdle, if_neg Bool.false_ne_true, if_neg isName.notUp]
      refine ⟨fits, isDirectory, ?_⟩
      simpa using inductionHypothesis further others

/-- A path leads to a directory through directories. -/
structure Opens (tree : FileTree) (directory : Path) (top : Location) : Prop where
  noNul : directory.text.toList.contains '\x00' = false
  nonempty : directory.text ≠ ""
  short : directory.text.utf8ByteSize < pathBound
  passes : tree.Passes (start tree.workingDirectory directory) directory.segments top

theorem opens_of_lookup (linkFree : tree.LinkFree) {follow : Bool}
    (found : tree.lookup follow directory = .ok (top, .directory)) : tree.Opens directory top := by
  obtain ⟨⟨noNul, nonempty, short⟩, walked⟩ := resolve_eq_ok_iff.mp (lookup_eq_ok_iff.mp found)
  exact ⟨noNul, nonempty, short, passes_of_walk linkFree walked⟩

theorem Opens.lookup (opens : tree.Opens directory top) (follow : Bool) :
    tree.lookup follow directory = .ok (top, .directory) := by
  have walked : tree.walk follow linkLimit (start tree.workingDirectory directory)
      (directory.segments ++ []) = _ := walk_of_passes opens.passes
  rw [List.append_nil, walk] at walked
  exact lookup_eq_ok_iff.mpr
    (resolve_eq_ok_iff.mpr ⟨⟨opens.noNul, opens.nonempty, opens.short⟩, walked⟩)

theorem Opens.mono (opens : tree.Opens directory top)
    (workingDirectory : after.workingDirectory = tree.workingDirectory)
    (kept : ∀ location, tree.entry? location = some .directory →
      after.entry? location = some .directory) : after.Opens directory top := by
  refine ⟨opens.noNul, opens.nonempty, opens.short, ?_⟩
  rw [workingDirectory]
  exact opens.passes.mono kept

/-- A path below a directory is resolved to where its names lead, if it is not refused. -/
theorem Opens.reaches (opens : tree.Opens directory top) (linkFree : tree.LinkFree)
    (proper : ∀ name ∈ names ++ [last], Path.IsName name) (opened : tree.Open top names)
    (accepted : (directory.spelled (names ++ [last])).refusal? last = none) :
    tree.Reaches (directory.spelled (names ++ [last])) (top ++ names ++ [last]) := by
  obtain ⟨front, slash, slashed, whole, spelled⟩ := Path.exists_stem_spelled opens.nonempty
  have leads : tree.Leads (directory.spelled (names ++ [last])) (top ++ names) last := by
    refine ⟨proper last (by simp), front ++ names, ?_, ?_⟩
    · rw [spelled _ (by simp) proper, List.append_assoc]
    · have passes := opens.passes
      rw [whole, passes_append] at passes
      obtain ⟨middle, first, idle⟩ := passes
      have same : middle = top := by
        rcases slashed with rfl | rfl
        · exact idle
        · exact idle
      rw [start, (Path.start_spelled opens.nonempty proper).2]
      exact passes_append.mpr ⟨top, same ▸ first,
        opened.passes fun name member => proper name (by simp [member])⟩
  exact leads.reaches linkFree accepted

/-- A path below a directory that is looked up at all opens the directory of its names. -/
theorem Opens.below (opens : tree.Opens directory top) (onDisk : tree.OnDisk)
    (linkFree : tree.LinkFree) (more : names ≠ [])
    (stands : tree.entry? (top ++ names) = some .directory) {found : Location × Entry}
    (looked : tree.lookup true (directory.spelled names) = .ok found) :
    tree.Opens (directory.spelled names) (top ++ names) := by
  obtain ⟨initial, last, rfl⟩ : ∃ initial last, names = initial ++ [last] :=
    ⟨_, _, (List.dropLast_concat_getLast more).symm⟩
  rw [← List.append_assoc] at stands ⊢
  obtain ⟨isDirectory, isEntry⟩ := onDisk.parent stands
  have proper : ∀ name ∈ initial ++ [last], Path.IsName name := fun name member =>
    (onDisk.names _ _ stands name (by simpa using Or.inr member)).isName
  have accepted := refusal?_of_resolve (lookup_eq_ok_iff.mp looked) isEntry.fits
  have reaches := opens.reaches linkFree proper (onDisk.opened isDirectory).right accepted
  have reached : tree.lookup true (directory.spelled (initial ++ [last])) = _ :=
    reaches.lookup stands
  exact opens_of_lookup linkFree reached

/-- A walk from a directory lists the entries below it, by their spelled paths. -/
theorem Opens.mem_entriesBelow_iff (opens : tree.Opens directory top) {entry : Entry} :
    (path, entry) ∈ tree.entriesBelow directory ↔
      ∃ names, names ≠ [] ∧ path = directory.spelled names ∧
        tree.entry? (top ++ names) = some entry := by
  rw [entriesBelow, opens.lookup true, List.mem_map]
  constructor
  · rintro ⟨⟨names, found⟩, member, same⟩
    cases same
    obtain ⟨more, there⟩ := mem_below_iff.mp member
    exact ⟨names, more, rfl, (tree.entry?_of_ne_nil (by simp [more])).trans there⟩
  · rintro ⟨names, more, rfl, there⟩
    rw [tree.entry?_of_ne_nil (by simp [more])] at there
    exact ⟨(names, entry), mem_below_iff.mpr ⟨more, there⟩, rfl⟩

end FileTree

end ChunkPrune
