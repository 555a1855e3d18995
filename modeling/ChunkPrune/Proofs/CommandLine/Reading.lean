import ChunkPrune.Proofs.CommandLine.Values

/-!
# Spelled settings are read

Each setting is spelled as an argument of its own, with its value behind an equality sign. An
argument for the engine may also follow its option as an argument, whatever it looks like. The
reader gets the settings back, in their order.
-/

namespace ChunkPrune

/-- Arguments that spell settings. -/
inductive Spelled : List Setting → List String → Prop
  | nil : Spelled [] []
  | whole (setting : Setting) {settings : List Setting} {arguments : List String}
      (rest : Spelled settings arguments) :
      Spelled (setting :: settings) (setting.render :: arguments)
  | apart (argument : String) {settings : List Setting} {arguments : List String}
      (rest : Spelled settings arguments) :
      Spelled (.engineArg argument :: settings) ("--engine-arg" :: argument :: arguments)

theorem Switch.long_injective {first second : Switch} (same : first.long = second.long) :
    first = second := by
  cases first <;> cases second <;> first | rfl | exact absurd same (by decide)

theorem Switch.find?_long {known : List Switch} {switch : Switch} (member : switch ∈ known) :
    known.find? (·.long = switch.long) = some switch := by
  cases found : known.find? (·.long = switch.long) with
  | none =>
      have other := List.find?_eq_none.mp found switch member
      exact absurd (decide_eq_true rfl) other
  | some first =>
      have same := List.find?_some found
      rw [long_injective (of_decide_eq_true same)]

namespace Setting

/-- What is written for a setting gives it back. -/
def Readable (setting : Setting) : Prop :=
  match setting.value? with
  | some value => ofValue setting.switch value = .ok setting
  | none => ofSwitch setting.switch = .ok setting

/-- Two settings may stand beside each other. -/
def Compatible (first second : Setting) : Prop :=
  first.switch = second.switch → first.switch.isRepeatable = true

theorem takesValue_switch (setting : Setting) :
    setting.switch.takesValue = setting.value?.isSome := by
  cases setting <;> rfl

end Setting

theorem Switch.long_plain (switch : Switch) : '=' ∉ switch.long.toList := by
  cases switch <;> decide

theorem Switch.long_ne_empty (switch : Switch) : switch.long ≠ "" := by
  cases switch <;> decide

namespace ArgumentState

/-- So far, settings were read, and the last option has its value. -/
structure Reads (state : ArgumentState) (settings : List Setting) : Prop where
  running : state.ended = false
  idle : state.awaiting? = none
  settled : state.settle = .ok ⟨settings, none, false⟩

theorem reads_initial : initial.Reads [] := ⟨rfl, rfl, rfl⟩

theorem reads_settled (settings : List Setting) :
    (⟨settings, none, false⟩ : ArgumentState).Reads settings := ⟨rfl, rfl, rfl⟩

variable {known : List Switch} {state : ArgumentState} {before : List Setting}
  {setting : Setting}

/-- A setting is added when no other one is in its way. -/
theorem add_setting (free : ∀ other ∈ before, other.Compatible setting) :
    (⟨before, none, false⟩ : ArgumentState).add setting.switch (.ok setting) =
      .ok ⟨before ++ [setting], none, false⟩ := by
  refine if_neg fun conflict => ?_
  obtain ⟨single, taken⟩ := Bool.and_eq_true_iff.mp conflict
  obtain ⟨other, member, same⟩ := List.any_eq_true.mp taken
  have sameSwitch : other.switch = setting.switch := of_decide_eq_true same
  have repeatable := free other member sameSwitch
  rw [sameSwitch] at repeatable
  rw [repeatable] at single
  cases single

/-- Two hyphens make an option of what follows them. -/
theorem take_hyphens (reads : state.Reads before) {text : String} (filled : text ≠ "") :
    state.take known ("--" ++ text) = state.takeLong known text := by
  have shape : ("--" ++ text).toList = '-' :: '-' :: text.toList := by simp
  have waiting : ¬(state.awaiting?.any Switch.takesAnyValue = true) := by simp [reads.idle]
  rw [take, if_neg (by simp [reads.running]), if_neg waiting, shape]
  cases letters : text.toList with
  | nil => exact absurd (String.toList_inj.mp letters) filled
  | cons first rest =>
      show state.takeLong known (String.ofList (first :: rest)) = _
      rw [← letters, String.ofList_toList]

/-- A setting that is written as one argument is read. -/
theorem take_render (reads : state.Reads before) (member : setting.switch ∈ known)
    (readable : setting.Readable) (free : ∀ other ∈ before, other.Compatible setting) :
    state.take known setting.render = .ok ⟨before ++ [setting], none, false⟩ := by
  have takes := setting.takesValue_switch
  cases written : setting.value? with
  | none =>
      rw [Setting.Readable, written] at readable
      rw [written] at takes
      have render : setting.render = "--" ++ setting.switch.long := by rw [Setting.render, written]
      rw [render, take_hyphens reads setting.switch.long_ne_empty, takeLong,
        Text.splitFirst?_eq_none setting.switch.long_plain]
      simp only [Switch.find?_long member, takes, takeSwitch, reads.settled]
      rw [readable]
      exact add_setting free
  | some value =>
      rw [Setting.Readable, written] at readable
      rw [written] at takes
      have render : setting.render = "--" ++ (setting.switch.long ++ "=" ++ value) := by
        rw [Setting.render, written]
        simp only [String.append_assoc]
      have filled : setting.switch.long ++ "=" ++ value ≠ "" := by
        intro none
        have letters := congrArg String.toList none
        simp at letters
      have split : Text.splitFirst? (setting.switch.long ++ "=" ++ value) '=' =
          some (setting.switch.long, value) :=
        Text.splitFirst?_append setting.switch.long_plain value
      rw [render, take_hyphens reads filled, takeLong, split]
      simp only [Switch.find?_long member, takes, takeOption, reads.settled]
      rw [readable]
      exact add_setting free

/-- An argument for the engine is read from the argument after its option, even when it looks
like an option or like the end of the options. -/
theorem take_engineArg (reads : state.Reads before) (member : Switch.engineArg ∈ known)
    (argument : String) :
    ∃ next, ["--engine-arg", argument].foldlM (take known) state = .ok next ∧
      next.Reads (before ++ [.engineArg argument]) := by
  let waiting : ArgumentState := ⟨before, some (.engineArg, none), false⟩
  let given : ArgumentState := ⟨before, some (.engineArg, some argument), false⟩
  have first : state.take known "--engine-arg" = .ok waiting := by
    have hyphens : state.take known ("--" ++ "engine-arg") = state.takeLong known "engine-arg" :=
      take_hyphens reads Switch.engineArg.long_ne_empty
    have find : known.find? (·.long = "engine-arg") = some .engineArg := Switch.find?_long member
    have whole : Text.splitFirst? "engine-arg" '=' = none :=
      Text.splitFirst?_eq_none Switch.engineArg.long_plain
    rw [show "--engine-arg" = "--" ++ "engine-arg" from rfl, hyphens, takeLong, whole]
    simp only [find]
    rw [takeOption, reads.settled]
    rfl
  have second : waiting.take known argument = .ok given := rfl
  have settled : given.settle = .ok ⟨before ++ [.engineArg argument], none, false⟩ := rfl
  refine ⟨given, ?_, rfl, rfl, settled⟩
  rw [List.foldlM_cons, first]
  exact second

/-- Arguments that spell settings are read, and the settings come in their order. -/
theorem Reads.run {settings : List Setting} {arguments : List String}
    (reads : state.Reads before) (spelled : Spelled settings arguments)
    (members : ∀ setting ∈ settings, setting.switch ∈ known)
    (readable : ∀ setting ∈ settings, setting.Readable)
    (compatible : (before ++ settings).Pairwise Setting.Compatible) :
    ∃ next, arguments.foldlM (take known) state = .ok next ∧ next.Reads (before ++ settings) := by
  -- the settings read so far grow by one, and with them what the next ones must get on with
  induction spelled generalizing state before with
  | nil => exact ⟨state, rfl, by rwa [List.append_nil]⟩
  | whole setting rest inductionHypothesis =>
      rw [List.forall_mem_cons] at members readable
      have free : ∀ other ∈ before, other.Compatible setting := fun other member =>
        (List.pairwise_append.mp compatible).2.2 other member setting List.mem_cons_self
      rw [List.append_cons] at compatible ⊢
      rw [List.foldlM_cons, take_render reads members.1 readable.1 free]
      exact inductionHypothesis (reads_settled _) members.2 readable.2 compatible
  | @apart argument settings arguments rest inductionHypothesis =>
      rw [List.forall_mem_cons] at members readable
      obtain ⟨next, taken, reads⟩ := take_engineArg reads members.1 argument
      have parts : "--engine-arg" :: argument :: arguments =
          ["--engine-arg", argument] ++ arguments := rfl
      rw [List.append_cons] at compatible ⊢
      rw [parts, List.foldlM_append, taken]
      exact inductionHypothesis reads members.2 readable.2 compatible

end ArgumentState

/-- Spelled settings are what is read from their arguments. -/
theorem readSettings_of_spelled {known : List Switch} {settings : List Setting}
    {arguments : List String} (spelled : Spelled settings arguments)
    (members : ∀ setting ∈ settings, setting.switch ∈ known)
    (readable : ∀ setting ∈ settings, setting.Readable)
    (compatible : settings.Pairwise Setting.Compatible) :
    readSettings known arguments = .ok settings := by
  obtain ⟨state, taken, reads⟩ :=
    ArgumentState.reads_initial.run spelled members readable compatible
  rw [readSettings, taken]
  show (do let state ← state.settle; .ok state.settings) = _
  rw [reads.settled]
  rfl

end ChunkPrune
