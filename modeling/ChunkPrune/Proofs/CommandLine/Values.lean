import ChunkPrune.CommandLine.Command
import ChunkPrune.Proofs.Path.Join

/-!
# Values of options

A value that is written is read back: a path as its text, a number in its digits, and an
application as its name with its directory.
-/

namespace ChunkPrune

namespace Text

/-- A text is cut in front of its first separator, whatever follows it. -/
theorem cutAt_append {separator : Char} {front : List Char} (absent : separator ∉ front)
    (rest : List Char) : cutAt separator (front ++ separator :: rest) = some (front, rest) := by
  induction front with
  | nil => simp [cutAt]
  | cons c front inductionHypothesis =>
      rw [List.mem_cons, not_or] at absent
      rw [List.cons_append, cutAt, if_neg fun same => absent.1 same.symm,
        inductionHypothesis absent.2]
      rfl

theorem splitFirst?_eq_none {text : String} {separator : Char}
    (absent : separator ∉ text.toList) : splitFirst? text separator = none := by
  rw [splitFirst?, cutAt_eq_none_iff.mpr absent]
  rfl

theorem splitFirst?_append {front : String} {separator : Char}
    (absent : separator ∉ front.toList) (rest : String) :
    splitFirst? (front ++ String.singleton separator ++ rest) separator = some (front, rest) := by
  have shape : (front ++ String.singleton separator ++ rest).toList =
      front.toList ++ separator :: rest.toList := by simp
  rw [splitFirst?, shape, cutAt_append absent]
  simp

end Text

namespace Setting

theorem readPath_text {path : Path} (filled : path.text ≠ "") : readPath path.text = .ok path := by
  rw [readPath, if_neg filled]

/-- A number of 64 bits is read back from its digits. -/
theorem readCount_toString {n : Nat} (fits : n < Nat.pow 2 64) :
    readCount (toString n) = .ok n := by
  have text : (toString n).toList = Nat.toDigits 10 n := by simp
  have digits : ∀ c ∈ Nat.toDigits 10 n, c.isDigit = true := fun _ member =>
    Nat.isDigit_of_mem_toDigits (by decide) (by decide) member
  have filled : Nat.toDigits 10 n ≠ [] := Nat.toDigits_ne_nil
  have value : (Nat.toDigits 10 n).foldl (fun n c => 10 * n + (c.toNat - '0'.toNat)) 0 = n := by
    rw [← Nat.ofDigitChars_eq_foldl, Nat.ofDigitChars_toDigits]
    · decide
    · decide
  -- a plus sign would be dropped, but it is no digit
  rw [readCount]
  split
  next rest shape =>
    rw [text] at shape
    have plus : '+'.isDigit = true := digits '+' (by rw [shape]; exact List.mem_cons_self)
    exact absurd plus (by decide)
  next =>
    rw [text, value]
    exact if_pos ⟨filled, List.all_eq_true.mpr digits, fits⟩

end Setting

namespace AppSpec

/-- An application that can be written: its parts are read back as they are. -/
structure Writable (spec : AppSpec) : Prop where
  name_ne : spec.name ≠ ""
  name_trim : Text.trim spec.name = spec.name
  name_plain : '=' ∉ spec.name.toList
  dir_ne : ∀ dir ∈ spec.outputDir, dir.text ≠ ""
  dir_trim : ∀ dir ∈ spec.outputDir, Text.trim dir.text = dir.text

/-- The first equality sign is the one between the parts, even if the directory has others. -/
theorem read_render {spec : AppSpec} (writable : spec.Writable) :
    read spec.render = .ok spec := by
  obtain ⟨name, outputDir⟩ := spec
  obtain ⟨nameFilled, nameTrimmed, plain, dirFilled, dirTrimmed⟩ := writable
  cases outputDir with
  | none =>
      rw [render, read, Text.splitFirst?_eq_none plain]
      simp only [nameTrimmed]
      exact if_neg nameFilled
  | some dir =>
      have split : Text.splitFirst? (name ++ "=" ++ dir.text) '=' = some (name, dir.text) :=
        Text.splitFirst?_append plain dir.text
      rw [render, read, split]
      simp only [nameTrimmed, dirTrimmed dir rfl]
      rw [if_neg nameFilled, if_neg (dirFilled dir rfl)]

end AppSpec

namespace Path

/-- What stands between a path and a relative one that is joined to it. -/
def gap (path : Path) : String :=
  if path.text = "" || Text.endsWith path.text "/" then "" else "/"

theorem join_relative {path : Path} (relative : path.isAbsolute = false) (base : Path) :
    base.join path = ⟨base.text ++ base.gap ++ path.text⟩ := by
  rw [join, if_neg (Bool.eq_false_iff.mp relative), gap]
  by_cases closed : (base.text = "" || Text.endsWith base.text "/") = true
  · rw [if_pos closed, if_pos closed, String.append_empty]
  · rw [if_neg closed, if_neg closed]

theorem endsWith_slash_iff {text : String} :
    Text.endsWith text "/" = true ↔ text.toList.getLast? = some '/' :=
  Text.endsWith_iff.trans List.getLast?_eq_some_iff.symm

theorem gap_append {text : String} (filled : text ≠ "") (front : String) :
    gap ⟨front ++ text⟩ = gap ⟨text⟩ := by
  have letters : text.toList ≠ [] := fun none => filled (String.toList_inj.mp none)
  have whole : front ++ text ≠ "" := by
    intro none
    rw [← String.toList_inj, String.toList_append] at none
    exact letters (List.append_eq_nil_iff.mp none).2
  have same : Text.endsWith (front ++ text) "/" = Text.endsWith text "/" := by
    rw [Bool.eq_iff_iff, endsWith_slash_iff, endsWith_slash_iff, String.toList_append,
      List.getLast?_append_of_ne_nil _ letters]
  simp [gap, same, whole, filled]

/-- A path is joined to others one after the other, or as a whole. -/
theorem join_join {path : Path} (filled : path.text ≠ "") (base last : Path) :
    (base.join path).join last = base.join (path.join last) := by
  by_cases rooted : last.isAbsolute = true
  · simp only [join, if_pos rooted]
  · have free : last.isAbsolute = false := Bool.eq_false_iff.mpr rooted
    by_cases absolute : path.isAbsolute = true
    · have joined := isAbsolute_join last absolute
      rw [join.eq_def base path, if_pos absolute, join.eq_def base, if_pos joined]
    · have relative : path.isAbsolute = false := Bool.eq_false_iff.mpr absolute
      have joined : (path.join last).isAbsolute = false := by
        rw [join_relative free, String.append_assoc]
        exact (isAbsolute_append filled _).trans relative
      rw [join_relative joined, join_relative free, join_relative relative, join_relative free,
        gap_append filled]
      simp only [String.append_assoc]

end Path

end ChunkPrune
