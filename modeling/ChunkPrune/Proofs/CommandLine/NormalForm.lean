import Mathlib.Data.List.TakeWhile
import ChunkPrune.Proofs.CommandLine.Values

/-!
# The normal form of an application

The white space around the name and the directory of an application does not count, and neither
part may be nothing but white space. What is read is in normal form: written again it is the same
text but for this white space, and it is read as it is.
-/

namespace ChunkPrune

/-! ## White space at the ends of a text -/

namespace Text

/-- No white space stands at the start or at the end. -/
structure Trimmed (cs : List Char) : Prop where
  first : ∀ c ∈ cs.head?, isBlank c = false
  last : ∀ c ∈ cs.getLast?, isBlank c = false

/-- The second text is the first one with white space around it. -/
def Around (inner cs : List Char) : Prop :=
  ∃ left right, (∀ c ∈ left, isBlank c = true) ∧ (∀ c ∈ right, isBlank c = true) ∧
    cs = left ++ inner ++ right

/-- Some character is no white space. -/
def Shows (cs : List Char) : Prop := ∃ c ∈ cs, isBlank c = false

theorem head?_trimStart (cs : List Char) : ∀ c ∈ (trimStart cs).head?, isBlank c = false := by
  induction cs with
  | nil => exact fun c absurdity => by cases absurdity
  | cons first rest inductionHypothesis =>
      rw [trimStart]
      by_cases blank : isBlank first = true
      · rw [List.dropWhile_cons_of_pos blank]
        exact inductionHypothesis
      · rw [List.dropWhile_cons_of_neg blank]
        intro c member
        obtain rfl := Option.some.inj member
        exact Bool.eq_false_iff.mpr blank

theorem exists_trimStart (cs : List Char) :
    ∃ left, (∀ c ∈ left, isBlank c = true) ∧ cs = left ++ trimStart cs :=
  ⟨cs.takeWhile isBlank, fun _ => List.mem_takeWhile_imp, List.takeWhile_append_dropWhile.symm⟩

theorem exists_trimEnd (cs : List Char) :
    ∃ right, (∀ c ∈ right, isBlank c = true) ∧ cs = trimEnd cs ++ right := by
  obtain ⟨left, blank, shape⟩ := exists_trimStart cs.reverse
  refine ⟨left.reverse, fun c member => blank c (List.mem_reverse.mp member), ?_⟩
  calc cs
    _ = cs.reverse.reverse := cs.reverse_reverse.symm
    _ = (left ++ trimStart cs.reverse).reverse := congrArg List.reverse shape
    _ = trimEnd cs ++ left.reverse := List.reverse_append

theorem around_trim (text : String) : Around (trim text).toList text.toList := by
  obtain ⟨left, leftBlank, front⟩ := exists_trimStart text.toList
  obtain ⟨right, rightBlank, back⟩ := exists_trimEnd (trimStart text.toList)
  refine ⟨left, right, leftBlank, rightBlank, ?_⟩
  rw [trim_toList, List.append_assoc, ← back, ← front]

theorem trimmed_trim (text : String) : Trimmed (trim text).toList := by
  rw [trim_toList]
  constructor
  · obtain ⟨right, -, back⟩ := exists_trimEnd (trimStart text.toList)
    intro c member
    apply head?_trimStart text.toList
    rw [back]
    exact List.mem_head?_append_of_mem_head? member
  · intro c member
    rw [trimEnd, List.getLast?_reverse] at member
    exact head?_trimStart _ c member

theorem trimStart_append {left : List Char} (blank : ∀ c ∈ left, isBlank c = true)
    (cs : List Char) : trimStart (left ++ cs) = trimStart cs :=
  List.dropWhile_append_of_pos blank

theorem trimStart_eq_self {cs : List Char} (first : ∀ c ∈ cs.head?, isBlank c = false) :
    trimStart cs = cs := by
  cases cs with
  | nil => rfl
  | cons c rest =>
      have shows : ¬ isBlank c = true := Bool.eq_false_iff.mp (first c rfl)
      exact List.dropWhile_cons_of_neg shows

/-- White space around a text is dropped, and nothing else. -/
theorem Trimmed.trim_eq {text around : String} (trimmed : Trimmed text.toList)
    (shape : Around text.toList around.toList) : trim around = text := by
  obtain ⟨left, right, leftBlank, rightBlank, shape⟩ := shape
  have rightBack : ∀ c ∈ right.reverse, isBlank c = true :=
    fun c member => rightBlank c (List.mem_reverse.mp member)
  apply String.toList_inj.mp
  rw [trim_toList, shape, List.append_assoc, trimStart_append leftBlank]
  by_cases empty : text.toList = []
  · have nothing : trimStart right = [] := List.dropWhile_eq_nil_iff.mpr rightBlank
    rw [empty, List.nil_append, nothing]
    rfl
  · have front : trimStart (text.toList ++ right) = text.toList ++ right := by
      apply trimStart_eq_self
      rw [List.head?_append_of_ne_nil _ empty]
      exact trimmed.first
    have back : trimStart text.toList.reverse = text.toList.reverse := by
      apply trimStart_eq_self
      rw [List.head?_reverse]
      exact trimmed.last
    calc trimEnd (trimStart (text.toList ++ right))
      _ = (trimStart (text.toList ++ right).reverse).reverse := by rw [front]; rfl
      _ = (trimStart (right.reverse ++ text.toList.reverse)).reverse := by
          rw [List.reverse_append]
      _ = text.toList := by rw [trimStart_append rightBack, back, List.reverse_reverse]

/-- A text around nothing is all white space. -/
theorem Shows.ne_empty {inner : String} {cs : List Char} (shows : Shows cs)
    (around : Around inner.toList cs) : inner ≠ "" := by
  intro empty
  obtain ⟨left, right, leftBlank, rightBlank, shape⟩ := around
  obtain ⟨c, member, visible⟩ := shows
  rw [shape, empty, String.toList_empty, List.append_nil, List.mem_append] at member
  have blank : isBlank c = true := member.elim (leftBlank c) (rightBlank c)
  rw [blank] at visible
  cases visible

theorem Trimmed.shows {inner : String} {cs : List Char} (trimmed : Trimmed inner.toList)
    (filled : inner ≠ "") (around : Around inner.toList cs) : Shows cs := by
  obtain ⟨left, right, -, -, shape⟩ := around
  cases letters : inner.toList with
  | nil => exact absurd (String.toList_inj.mp letters) filled
  | cons c rest =>
      refine ⟨c, ?_, trimmed.first c (by rw [letters]; rfl)⟩
      rw [shape, letters]
      simp

/-- A character that is no white space stands in the text when it stands in what is around it. -/
theorem Around.mem {inner cs : List Char} (around : Around inner cs) {c : Char}
    (visible : isBlank c = false) (member : c ∈ cs) : c ∈ inner := by
  obtain ⟨left, right, leftBlank, rightBlank, shape⟩ := around
  rw [shape, List.mem_append, List.mem_append] at member
  rcases member with (inLeft | inner) | inRight
  · exact absurd (leftBlank c inLeft) (Bool.eq_false_iff.mp visible)
  · exact inner
  · exact absurd (rightBlank c inRight) (Bool.eq_false_iff.mp visible)

theorem Around.subset {inner cs : List Char} (around : Around inner cs) : inner ⊆ cs := by
  obtain ⟨left, right, -, -, shape⟩ := around
  intro c member
  rw [shape]
  simp [member]

theorem eq_append_of_toList {text : String} {front back : List Char} {c : Char}
    (shape : text.toList = front ++ c :: back) :
    text = String.ofList front ++ String.singleton c ++ String.ofList back := by
  apply String.toList_inj.mp
  simp [shape]

end Text

namespace AppSpec

open Text

/-- A text that can be read: there is more than white space in front of the first equality sign,
and after it if there is one. -/
inductive Acceptable (text : String) : Prop
  | name (plain : '=' ∉ text.toList) (shows : Shows text.toList)
  | both {name dir : List Char} (shape : text.toList = name ++ '=' :: dir) (plain : '=' ∉ name)
      (nameShows : Shows name) (dirShows : Shows dir)

/-- An application in normal form. -/
structure Normal (spec : AppSpec) : Prop where
  name_ne : spec.name ≠ ""
  name_plain : '=' ∉ spec.name.toList
  name_trimmed : Trimmed spec.name.toList
  dir_ne : ∀ dir ∈ spec.outputDir, dir.text ≠ ""
  dir_trimmed : ∀ dir ∈ spec.outputDir, Trimmed dir.text.toList

/-- The text says what the application is, with white space around the parts. -/
inductive Denotes (text : String) : AppSpec → Prop
  | name {name : String} (around : Around name.toList text.toList) : Denotes text ⟨name, none⟩
  | both {name : String} {dir : Path} {front back : List Char}
      (shape : text.toList = front ++ '=' :: back) (nameAround : Around name.toList front)
      (dirAround : Around dir.text.toList back) : Denotes text ⟨name, some dir⟩

theorem denotes_render (spec : AppSpec) : Denotes spec.render spec := by
  have itself : ∀ cs : List Char, Around cs cs := fun cs =>
    ⟨[], [], List.forall_mem_nil _, List.forall_mem_nil _, by simp⟩
  obtain ⟨name, outputDir⟩ := spec
  cases outputDir with
  | none => exact .name (itself _)
  | some dir =>
      refine .both ?_ (itself _) (itself _)
      simp [render]

theorem normal_of_read {text : String} {spec : AppSpec} (reads : read text = .ok spec) :
    spec.Normal ∧ Denotes text spec := by
  rw [read] at reads
  cases split : splitFirst? text '=' with
  | none =>
      simp only [split] at reads
      split at reads
      · cases reads
      next filled =>
        cases reads
        have plain : '=' ∉ text.toList := by
          rwa [splitFirst?, Option.map_eq_none_iff, cutAt_eq_none_iff] at split
        refine ⟨⟨filled, ?_, trimmed_trim text, ?_, ?_⟩, .name (around_trim text)⟩
        · exact fun member => plain ((around_trim text).subset member)
        · exact fun dir absurdity => by cases absurdity
        · exact fun dir absurdity => by cases absurdity
  | some sides =>
      obtain ⟨name, dir⟩ := sides
      simp only [split] at reads
      split at reads
      · cases reads
      next nameFilled =>
        split at reads
        · cases reads
        next dirFilled =>
          cases reads
          obtain ⟨⟨front, back⟩, cut, same⟩ := Option.map_eq_some_iff.mp split
          cases same
          obtain ⟨shape, plain⟩ := cutAt_eq_some cut
          have nameAround := around_trim (String.ofList front)
          have dirAround := around_trim (String.ofList back)
          rw [String.toList_ofList] at nameAround dirAround
          refine ⟨⟨nameFilled, ?_, trimmed_trim _, ?_, ?_⟩, .both shape nameAround dirAround⟩
          · exact fun member => plain (nameAround.subset member)
          · intro dir member
            obtain rfl := Option.some.inj member
            exact dirFilled
          · intro dir member
            obtain rfl := Option.some.inj member
            exact trimmed_trim _

theorem Normal.read_eq {spec : AppSpec} (normal : spec.Normal) {text : String}
    (denotes : Denotes text spec) : read text = .ok spec := by
  have visible : isBlank '=' = false := by decide
  cases denotes with
  | name around =>
      have plain := fun member => normal.name_plain (around.mem visible member)
      rw [read, splitFirst?_eq_none plain]
      simp only [normal.name_trimmed.trim_eq around]
      exact if_neg normal.name_ne
  | @both name dir front back shape nameAround dirAround =>
      have plain : '=' ∉ (String.ofList front).toList := by
        rw [String.toList_ofList]
        exact fun member => normal.name_plain (nameAround.mem visible member)
      rw [← String.toList_ofList (l := front)] at nameAround
      rw [← String.toList_ofList (l := back)] at dirAround
      rw [eq_append_of_toList shape, read, splitFirst?_append plain]
      simp only [normal.name_trimmed.trim_eq nameAround,
        (normal.dir_trimmed dir rfl).trim_eq dirAround]
      rw [if_neg normal.name_ne, if_neg (normal.dir_ne dir rfl)]

theorem exists_read_iff (text : String) : (∃ spec, read text = .ok spec) ↔ Acceptable text := by
  constructor
  · intro ⟨spec, reads⟩
    obtain ⟨normal, denotes⟩ := normal_of_read reads
    have visible : isBlank '=' = false := by decide
    cases denotes with
    | name around =>
        refine .name (fun member => normal.name_plain (around.mem visible member)) ?_
        exact normal.name_trimmed.shows normal.name_ne around
    | both shape nameAround dirAround =>
        refine .both shape (fun member => normal.name_plain (nameAround.mem visible member)) ?_ ?_
        · exact normal.name_trimmed.shows normal.name_ne nameAround
        · exact (normal.dir_trimmed _ rfl).shows (normal.dir_ne _ rfl) dirAround
  · intro acceptable
    cases acceptable with
    | name plain shows =>
        refine ⟨⟨trim text, none⟩, ?_⟩
        rw [read, splitFirst?_eq_none plain]
        exact if_neg (shows.ne_empty (around_trim text))
    | @both name dir shape plain nameShows dirShows =>
        have nameAround := around_trim (String.ofList name)
        have dirAround := around_trim (String.ofList dir)
        rw [String.toList_ofList] at nameAround dirAround
        refine ⟨⟨trim (String.ofList name), some ⟨trim (String.ofList dir)⟩⟩, ?_⟩
        rw [eq_append_of_toList shape, read,
          splitFirst?_append (by rwa [String.toList_ofList])]
        dsimp only
        rw [if_neg (nameShows.ne_empty nameAround), if_neg (dirShows.ne_empty dirAround)]

/-- Applications are read exactly and normalised once. A text is read when each of its parts has
more than white space; what it gives is in normal form, is what the text says, and is given again
when it is written and read, with the same directory for every root. -/
theorem read_normalizes (text : String) :
    ((∃ spec, read text = .ok spec) ↔ Acceptable text) ∧
      ∀ spec, read text = .ok spec →
        spec.Normal ∧ Denotes text spec ∧ read spec.render = .ok spec ∧
          ∀ root, (read spec.render).map (application root) = .ok (spec.application root) := by
  refine ⟨exists_read_iff text, fun spec reads => ?_⟩
  obtain ⟨normal, denotes⟩ := normal_of_read reads
  have again : read spec.render = .ok spec := normal.read_eq (denotes_render spec)
  refine ⟨normal, denotes, again, fun root => ?_⟩
  rw [again]
  rfl

/-- A text with several equality signs and white space of several kinds. -/
def spacedText : String := "\t web app\u00a0=\u2003out = a "

theorem read_normalizes_spacedText :
    read spacedText = .ok ⟨"web app", some ⟨"out = a"⟩⟩ ∧
      AppSpec.Normal ⟨"web app", some ⟨"out = a"⟩⟩ ∧
      read "web app=out = a" = .ok ⟨"web app", some ⟨"out = a"⟩⟩ := by
  have reads : read spacedText = .ok ⟨"web app", some ⟨"out = a"⟩⟩ := by decide
  obtain ⟨normal, -, again, -⟩ := (read_normalizes spacedText).2 _ reads
  exact ⟨reads, normal, again⟩

end AppSpec

end ChunkPrune
