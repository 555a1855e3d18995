/-!
# Ends and parts of a text

Tests and cuts at the start, the end and the first occurrence of a character.
-/

namespace ChunkPrune.Text

/-- What follows a given start, when the characters start so. -/
def dropStart? : List Char → List Char → Option (List Char)
  | [], cs => some cs
  | _ :: _, [] => none
  | c :: start, d :: cs => if c = d then dropStart? start cs else none

/-- What comes before a given ending, when the characters end so. -/
def dropEnd? (ending cs : List Char) : Option (List Char) :=
  (dropStart? ending.reverse cs.reverse).map List.reverse

def startsWith (text start : String) : Bool := (dropStart? start.toList text.toList).isSome

def endsWith (text ending : String) : Bool := (dropEnd? ending.toList text.toList).isSome

def stripEnd? (text ending : String) : Option String :=
  (dropEnd? ending.toList text.toList).map String.ofList

/-- The two sides of the first occurrence of a character. -/
def cutAt (separator : Char) : List Char → Option (List Char × List Char)
  | [] => none
  | c :: rest =>
    if c = separator then some ([], rest)
    else (cutAt separator rest).map fun sides => (c :: sides.1, sides.2)

/-- The two sides of the first occurrence of a character in a text. -/
def splitFirst? (text : String) (separator : Char) : Option (String × String) :=
  (cutAt separator text.toList).map fun sides =>
    (String.ofList sides.1, String.ofList sides.2)

/-- One list of characters occurs within another. -/
def occursIn (part : List Char) : List Char → Bool
  | [] => part.isEmpty
  | c :: rest => (dropStart? part (c :: rest)).isSome || occursIn part rest

def contains (text part : String) : Bool := occursIn part.toList text.toList

theorem dropStart?_eq_some_iff {start cs rest : List Char} :
    dropStart? start cs = some rest ↔ cs = start ++ rest := by
  fun_induction dropStart? start cs with
  | case1 cs => exact ⟨fun h => Option.some.inj h, fun h => congrArg some h⟩
  | case2 c start => exact ⟨(nomatch ·), (nomatch ·)⟩
  | case3 c start cs ih => simp [ih]
  | case4 c start d cs hne =>
    exact ⟨(nomatch ·), fun h => absurd (List.cons.inj h).1.symm hne⟩

theorem dropEnd?_eq_some_iff {ending cs rest : List Char} :
    dropEnd? ending cs = some rest ↔ cs = rest ++ ending := by
  rw [dropEnd?, Option.map_eq_some_iff]
  constructor
  · rintro ⟨start, hstart, rfl⟩
    have := congrArg List.reverse (dropStart?_eq_some_iff.mp hstart)
    simpa using this
  · intro h
    exact ⟨rest.reverse, dropStart?_eq_some_iff.mpr (by simp [h]), by simp⟩

theorem cutAt_eq_some {separator : Char} {cs left right : List Char}
    (h : cutAt separator cs = some (left, right)) :
    cs = left ++ separator :: right ∧ separator ∉ left := by
  induction cs generalizing left with
  | nil => cases h
  | cons c rest ih =>
    rw [cutAt] at h
    split at h
    next heq =>
      cases h
      exact ⟨by rw [heq]; rfl, List.not_mem_nil⟩
    next hne =>
      obtain ⟨sides, hsides, heq⟩ := Option.map_eq_some_iff.mp h
      cases heq
      obtain ⟨hcs, hleft⟩ := ih hsides
      refine ⟨by rw [hcs]; rfl, ?_⟩
      rintro hmem
      rcases List.mem_cons.mp hmem with hmem | hmem
      · exact hne hmem.symm
      · exact hleft hmem

theorem cutAt_eq_none_iff {separator : Char} {cs : List Char} :
    cutAt separator cs = none ↔ separator ∉ cs := by
  induction cs with
  | nil => simp [cutAt]
  | cons c rest ih =>
    rw [cutAt]
    split
    next heq => simp [heq]
    next hne =>
      rw [Option.map_eq_none_iff, ih, List.mem_cons, not_or]
      exact ⟨fun h => ⟨fun heq => hne heq.symm, h⟩, fun h => h.2⟩

end ChunkPrune.Text
