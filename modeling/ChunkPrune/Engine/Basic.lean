import ChunkPrune.Failure
import ChunkPrune.Json.Printer
import ChunkPrune.Usage.Merge

/-!
# Pruning engines

An engine removes code from the source of a chunk. It is told what to keep by a
configuration for exactly one library and answers with a JSON text. Here an engine is
a function of the two texts it is given.
-/

namespace ChunkPrune

/-- What an engine is asked: the source of a chunk and the text of a configuration. -/
structure EngineCall where
  source : String
  config : String
  deriving DecidableEq, Repr

/-- The answer to a call, or why there is none. -/
abbrev Engine := EngineCall → Except Failure String

/-- The configuration for one library: all its flags, and the characteristics of the
chunk under the reserved key. -/
def engineConfig (library : String) (flags : Table String Bool)
    (characteristics : Characteristics) : Json :=
  let members := (flags.map fun _ used => Json.bool used).insert characteristicsKey
    characteristics.toJson
  .object [(librariesKey, .object [(library, .object members.entries)])]

/-! ## Engines made of rules

No command makes such an engine: the engine of a command is a program. With rules, runs are
evaluated on engines whose answers are known. -/

/-- An answer for the calls whose texts contain the given parts. -/
structure EngineRule where
  sourceHas : String
  configHas : String
  answer : Except String String

def EngineRule.fits (rule : EngineRule) (call : EngineCall) : Bool :=
  Text.contains call.source rule.sourceHas && Text.contains call.config rule.configHas

/-- The engine that answers by the first rule that fits. -/
def Engine.ofRules (rules : List EngineRule) : Engine := fun call =>
  match rules.find? (·.fits call) with
  | some rule => rule.answer.mapError .engine
  | none => .error (.engine "no rule")

end ChunkPrune
