import ChunkPrune.CommandLine.Setting

/-!
# Reading arguments

Arguments are read from the left. The value of an option may stand in the next
argument; it is looked at only when another option comes or the arguments end, so an
unknown option is reported before a wrong value that stands in front of it.
-/

namespace ChunkPrune

/-- What has been read: the settings in their order, an option whose value is not
settled yet, and whether two hyphens have ended the options. -/
structure ArgumentState where
  settings : List Setting
  pending : Option (Switch × Option String)
  ended : Bool

namespace ArgumentState

def initial : ArgumentState := ⟨[], none, false⟩

/-- Add a setting; only some options may stand twice. -/
def add (state : ArgumentState) (switch : Switch) (setting : Except UsageError Setting) :
    Except UsageError ArgumentState :=
  if !switch.isRepeatable && state.settings.any (·.switch = switch) then
    .error .argumentConflict
  else
    match setting with
    | .ok setting => .ok { state with settings := state.settings ++ [setting] }
    | .error e => .error e

/-- Settle the option that waits. -/
def settle (state : ArgumentState) : Except UsageError ArgumentState :=
  match state.pending with
  | none => .ok state
  | some (_, none) => .error .invalidValue
  | some (switch, some value) =>
    { state with pending := none }.add switch (Setting.ofValue switch value)

/-- An option with a value in the same argument, or one that waits for its value. -/
def takeOption (state : ArgumentState) (switch : Switch) (value : Option String) :
    Except UsageError ArgumentState := do
  let state ← state.settle
  match value with
  | some value => state.add switch (Setting.ofValue switch value)
  | none => .ok { state with pending := some (switch, none) }

def takeSwitch (state : ArgumentState) (switch : Switch) :
    Except UsageError ArgumentState := do
  let state ← state.settle
  state.add switch (Setting.ofSwitch switch)

/-- An argument after two hyphens: a name, or a name and a value. -/
def takeLong (known : List Switch) (state : ArgumentState) (text : String) :
    Except UsageError ArgumentState :=
  let (name, value) :=
    match Text.splitFirst? text '=' with
    | some (name, value) => (name, some value)
    | none => (text, none)
  match known.find? (·.long = name) with
  | none => .error .unknownArgument
  | some switch =>
    if switch.takesValue then state.takeOption switch value
    else if value.isSome then .error .tooManyValues
    else state.takeSwitch switch

/-- The value that follows a letter, without an equality sign before it. -/
def valueAfterLetter : List Char → Option String
  | [] => none
  | '=' :: rest => some (String.ofList rest)
  | cs => some (String.ofList cs)

/-- The letters after one hyphen. A letter with a value takes all that follows. -/
def takeLetters (known : List Switch) (state : ArgumentState) :
    List Char → Except UsageError ArgumentState
  | [] => .ok state
  | c :: rest =>
    match known.find? (·.short? = some c) with
    | none => .error .unknownArgument
    | some switch =>
      if switch.takesValue then state.takeOption switch (valueAfterLetter rest)
      else
        match state.takeSwitch switch with
        | .ok state => takeLetters known state rest
        | .error e => .error e

/-- The option that waits for its value to come. -/
def awaiting? (state : ArgumentState) : Option Switch :=
  match state.pending with
  | some (switch, none) => some switch
  | _ => none

/-- An argument that is no option: the value of the option that waits for one. -/
def takeValue (state : ArgumentState) (value : String) : Except UsageError ArgumentState :=
  match state.awaiting? with
  | some switch => .ok { state with pending := some (switch, some value) }
  | none => .error .unknownArgument

def take (known : List Switch) (state : ArgumentState) (argument : String) :
    Except UsageError ArgumentState :=
  if state.ended then .error .unknownArgument
  else if state.awaiting?.any Switch.takesAnyValue then state.takeValue argument
  else
    match argument.toList with
    | ['-', '-'] => .ok { state with ended := true }
    | '-' :: '-' :: rest => state.takeLong known (String.ofList rest)
    | '-' :: c :: rest => state.takeLetters known (c :: rest)
    | _ => state.takeValue argument

end ArgumentState

/-- The settings of some arguments, of which the options are known. -/
def readSettings (known : List Switch) (arguments : List String) :
    Except UsageError (List Setting) := do
  let state ← arguments.foldlM (ArgumentState.take known) .initial
  let state ← state.settle
  .ok state.settings

end ChunkPrune
