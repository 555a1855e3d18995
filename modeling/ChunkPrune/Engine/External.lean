import ChunkPrune.Engine.Basic
import ChunkPrune.Json.Document
import ChunkPrune.Shell.Run
import ChunkPrune.Text.Blank

/-!
# Engines that are programs

A program is started once for each chunk. It reads the request, one JSON document, and
writes its answer. The programs known here are the shell, which runs the script that
its arguments name, and the utilities of the shell that are programs of their own.

A program is taken to have room for its request. One that ends well and has not read it can leave
the writer of the request with a broken pipe, by how much the pipe holds and by which of the two
comes first, and the call then fails although there is an answer. That race is left out here.
-/

namespace ChunkPrune

inductive Program where
  | shell
  | utility (utility : Shell.Utility)
  deriving DecidableEq, Repr

namespace Program

/-- Utilities that only the shell itself has. -/
def isBuiltIn (name : String) : Bool := name = ":" || name = "exit"

/-- The program of a name, or of a path in one of the directories with programs. -/
def find? (program : String) : Option Program :=
  let stripped := Shell.Utility.directories.findSome? fun directory =>
    Text.dropStart? directory.toList program.toList
  let name := (stripped.map String.ofList).getD program
  if name = "sh" then some shell
  else if isBuiltIn name then none
  else (Shell.Utility.names.find? (·.1 = name)).map fun entry => utility entry.2

def run (program : Program) (tree : FileTree) (arguments : List String) (input : String) :
    Shell.Finished :=
  let arguments := arguments.map Shell.bytesOf
  let input := Shell.bytesOf input
  match program with
  | .shell => Shell.run tree arguments input
  | .utility tool =>
    (tool.run .standard 1 (.start tree [] [] input) arguments).finished

end Program

/-- A program with the arguments it is started with. -/
structure ExternalEngine where
  program : Program
  arguments : List String
  deriving DecidableEq, Repr

namespace ExternalEngine

/-- Look the program up; a run does not start without it. -/
def load (program : String) (arguments : List String) : Except Failure ExternalEngine :=
  match Program.find? program with
  | some found => .ok ⟨found, arguments⟩
  | none => .error (.engineUnavailable program)

/-- The document that the program reads. -/
def request (source : String) (config : Json) : Json :=
  .object [("config", config), ("source", .string source)]

/-- What the end of the program means: output is an answer only if all went well. -/
def answer (finished : Shell.Finished) : Except Failure String :=
  match finished.status with
  | .code 0 => (Utf8.decode finished.output).mapError .engineOutput
  | status =>
    .error (.engineExit status (Text.trim (Utf8.decodeLenient finished.errors)))

/-- The engine on a tree of files. The configuration is sent on as the value it is, so
it must be JSON. -/
def toEngine (command : ExternalEngine) (tree : FileTree) : Engine := fun call =>
  match Json.read? call.config with
  | none => .error .configNotJson
  | some config =>
    answer (command.program.run tree command.arguments (request call.source config).compact)

end ExternalEngine

end ChunkPrune
