import ChunkPrune.Failure
import ChunkPrune.Shell.Printing
import ChunkPrune.Shell.Script

/-!
# Running scripts

A script reads its input and writes output and errors until its commands are done, it
exits, or it is killed. Scripts read files but do not change any: what they write to a
file is lost.
-/

namespace ChunkPrune.Shell

/-- Where a descriptor leads. -/
inductive Sink where
  | output
  | errors
  | nowhere
  deriving DecidableEq, Repr

structure Streams where
  output : Sink
  errors : Sink
  deriving DecidableEq, Repr

def Streams.standard : Streams := ⟨.output, .errors⟩

/-- A running shell: what it was started with, its variables, what it has not read and
what it has written, the status of the last command, and how it ended if it did. -/
structure Process where
  tree : FileTree
  name : Bytes
  arguments : List Bytes
  bindings : List (Bytes × Bytes)
  input : Bytes
  output : Bytes
  errors : Bytes
  status : Nat
  ended : Option ExitStatus

namespace Process

/-- The number by which a script knows its own process. -/
def ownNumber : Bytes := bytesOf "1"

def start (tree : FileTree) (name : Bytes) (arguments : List Bytes) (input : Bytes) : Process :=
  ⟨tree, name, arguments, [], input, [], [], 0, none⟩

def write (process : Process) (sink : Sink) (bytes : Bytes) : Process :=
  match sink with
  | .output => { process with output := process.output ++ bytes }
  | .errors => { process with errors := process.errors ++ bytes }
  | .nowhere => process

def withStatus (process : Process) (status : Nat) : Process := { process with status }

/-- Write a message about a line and go on with a status. -/
def complain (process : Process) (sink : Sink) (line : Nat) (message : Bytes)
    (status : Nat) : Process :=
  (process.write sink (process.name ++ bytesOf (": " ++ toString line ++ ": ") ++ message ++
    ['\n'])).withStatus status

def finish (process : Process) (status : ExitStatus) : Process :=
  { process with ended := some status }

def lookup (process : Process) (name : Bytes) : Bytes :=
  ((process.bindings.find? (·.1 = name)).map (·.2)).getD []

def assign (process : Process) (name value : Bytes) : Process :=
  { process with
    bindings := (name, value) :: process.bindings.filter (·.1 ≠ name) }

/-- The values of a parameter: one, but for the arguments one by one. -/
def values (process : Process) : Parameter → List Bytes
  | .variable name => [process.lookup name]
  | .argument 0 => [process.name]
  | .argument (index + 1) => [process.arguments.getD index []]
  | .arguments => process.arguments
  | .joinedArguments => [[' '].intercalate process.arguments]
  | .count => [bytesOf (toString process.arguments.length)]
  | .status => [bytesOf (toString process.status)]
  | .process => [ownNumber]

end Process

/-! ## Words -/

/-- A piece of an expanded word: a byte, a blank that ends a field, or a mark that there
is a field even if it is empty. -/
inductive Piece where
  | byte (c : Char)
  | blank (c : Char)
  | mark
  deriving DecidableEq, Repr

def quotedPieces (text : Bytes) : List Piece := .mark :: text.map .byte

/-- Blanks outside quotes end a field. -/
def barePieces (text : Bytes) : List Piece :=
  text.map fun c => if c = ' ' ∨ c = '\t' ∨ c = '\n' then .blank c else .byte c

def pieces (quoted : Bool) (text : Bytes) : List Piece :=
  if quoted then quotedPieces text else barePieces text

/-- The fields of pieces. The open field, if there is one, has its last byte first. -/
def fieldsOf (open? : Option Bytes) : List Piece → List Bytes
  | [] => open?.toList.map List.reverse
  | .blank _ :: rest => open?.toList.map List.reverse ++ fieldsOf none rest
  | .mark :: rest => fieldsOf (some (open?.getD [])) rest
  | .byte c :: rest => fieldsOf (some (c :: open?.getD [])) rest

/-- Output without the new lines at its end. -/
def trimNewlines (bytes : Bytes) : Bytes := (bytes.reverse.dropWhile (· == '\n')).reverse

/-- How a script within a word is run. -/
abbrev Substitution := Process → Bytes → Process

/-- The pieces of a part. A script within a word shares input and errors with the
script around it. -/
def expandPart (substitute : Substitution) (process : Process) :
    Part → Process × List Piece
  | .text value quoted => (process, if quoted then quotedPieces value else value.map .byte)
  | .value parameter quoted =>
    let values := process.values parameter
    (process, [Piece.blank ' '].intercalate (values.map (pieces quoted)))
  | .output script quoted =>
    let inner := substitute { process with output := [] } script
    let process := { process with
      input := inner.input, errors := inner.errors, status := inner.status }
    (process, pieces quoted (trimNewlines inner.output))

def expandParts (substitute : Substitution) (process : Process) :
    List Part → Process × List Piece
  | [] => (process, [])
  | part :: rest =>
    let (process, first) := expandPart substitute process part
    let (process, others) := expandParts substitute process rest
    (process, first ++ others)

/-- The fields of words. -/
def expandWords (substitute : Substitution) (process : Process) :
    List Word → Process × List Bytes
  | [] => (process, [])
  | word :: rest =>
    let (process, first) := expandParts substitute process word
    let (process, others) := expandWords substitute process rest
    (process, fieldsOf none first ++ others)

/-- A word as one text. -/
def expandText (substitute : Substitution) (process : Process) (word : Word) :
    Process × Bytes :=
  let (process, pieces) := expandParts substitute process word
  (process, pieces.filterMap fun
    | .byte c => some c
    | .blank c => some c
    | .mark => none)

def assignAll (substitute : Substitution) (process : Process) :
    List (Bytes × Word) → Process
  | [] => process
  | (name, word) :: rest =>
    let (process, value) := expandText substitute process word
    assignAll substitute (process.assign name value) rest

/-! ## Commands -/

/-- The text of bytes, where it names a file. -/
def pathOf (bytes : Bytes) : Path := ⟨Utf8.decodeLenient (octets bytes)⟩

def readFile (tree : FileTree) (name : Bytes) : Except OsError Bytes :=
  if name = bytesOf "/dev/null" then .ok []
  else
    (tree.readBytes (pathOf name)).map fun content =>
      content.toList.map fun byte => Char.ofNat byte.toNat

/-- An error as it is called after a file name. -/
def errorName : OsError → Bytes
  | .isDirectory => bytesOf "Is a directory"
  | .notDirectory => bytesOf "Not a directory"
  | .nameTooLong => bytesOf "File name too long"
  | .tooManyLinks => bytesOf "Too many levels of symbolic links"
  | _ => bytesOf "No such file or directory"

def concatenate (streams : Streams) (process : Process) : List Bytes → Process
  | [] => process
  | name :: rest =>
    let process :=
      if name = ['-'] then
        { process.write streams.output process.input with input := [] }
      else
        match readFile process.tree name with
        | .ok bytes => process.write streams.output bytes
        | .error e =>
          (process.write streams.errors
            (bytesOf "cat: " ++ name ++ bytesOf ": " ++ errorName e ++ ['\n'])).withStatus 1
    concatenate streams process rest

/-- The signals that end a process. -/
def endingSignals : List (Nat × String) :=
  [(1, "HUP"), (2, "INT"), (3, "QUIT"), (4, "ILL"), (5, "TRAP"), (6, "ABRT"), (7, "BUS"),
    (8, "FPE"), (9, "KILL"), (10, "USR1"), (11, "SEGV"), (12, "USR2"), (13, "PIPE"),
    (14, "ALRM"), (15, "TERM")]

/-- The end by a signal given by its number or its name. -/
def signalEnd? (signal : Bytes) : Option ExitStatus :=
  (endingSignals.find? fun (number, name) =>
    signal = bytesOf (toString number) || signal = bytesOf name).map
    fun (number, name) => .signal number ("SIG" ++ name)

/-- Send a signal, which only the script itself can receive. -/
def kill (process : Process) (arguments : List Bytes) : Process :=
  let (signal, applications) : Bytes × List Bytes :=
    match arguments with
    | ['-', 's'] :: signal :: applications => (signal, applications)
    | ('-' :: signal) :: applications => (signal, applications)
    | applications => (bytesOf "TERM", applications)
  if applications.contains Process.ownNumber then
    match signalEnd? signal with
    | some status => process.finish status
    | none => process.withStatus 0
  else process.withStatus 1

/-- End the script with a status, or with the status of its last command. -/
def exit (streams : Streams) (line : Nat) (process : Process) (arguments : List Bytes) :
    Process :=
  match arguments with
  | [] => process.finish (.code process.status)
  | digits :: _ =>
    if digits ≠ [] ∧ digits.all Char.isDigit then
      process.finish (.code (number digits % 256))
    else
      (process.complain streams.errors line (bytesOf "exit: Illegal number: " ++ digits)
        2).finish (.code 2)

inductive Utility where
  | succeed
  | fail
  | cat
  | echo
  | printf
  | kill
  | exit
  deriving DecidableEq, Repr

namespace Utility

/-- The utilities by their names. -/
def names : List (String × Utility) :=
  [(":", succeed), ("true", succeed), ("false", fail), ("cat", cat), ("echo", echo),
    ("printf", printf), ("kill", kill), ("exit", exit)]

def directories : List String := ["/bin/", "/usr/bin/"]

def find? (name : Bytes) : Option Utility :=
  let plain := directories.map fun directory => Text.dropStart? directory.toList name
  let name := (plain.findSome? id).getD name
  (names.find? fun entry => bytesOf entry.1 = name).map (·.2)

def run (utility : Utility) (streams : Streams) (line : Nat) (process : Process)
    (arguments : List Bytes) : Process :=
  match utility with
  | succeed => process.withStatus 0
  | fail => process.withStatus 1
  | cat =>
    concatenate streams (process.withStatus 0) (if arguments.isEmpty then [['-']] else arguments)
  | echo => (process.write streams.output (Shell.echo arguments)).withStatus 0
  | printf =>
    if arguments.isEmpty then
      process.complain streams.errors line
        (bytesOf "printf: usage: printf format [arg ...]") 2
    else (process.write streams.output (Shell.printf arguments)).withStatus 0
  | kill => Shell.kill process arguments
  | exit => Shell.exit streams line process arguments

end Utility

/-- What redirections make of the streams of a command and of its input, or why one of
them fails. -/
structure Redirected where
  streams : Streams
  input : Option Bytes

def Streams.sink (streams : Streams) (descriptor : Nat) : Sink :=
  match descriptor with
  | 1 => streams.output
  | 2 => streams.errors
  | _ => .nowhere

def Streams.set (streams : Streams) (descriptor : Nat) (sink : Sink) : Streams :=
  match descriptor with
  | 1 => { streams with output := sink }
  | 2 => { streams with errors := sink }
  | _ => streams

/-- The sink of a file that is written to. -/
def fileSink (streams : Streams) (name : Bytes) : Sink :=
  if name = bytesOf "/dev/stdout" then streams.output
  else if name = bytesOf "/dev/stderr" then streams.errors
  else .nowhere

def redirect (tree : FileTree) (redirected : Redirected) (redirection : Redirection)
    (target : Bytes) : Except Bytes Redirected :=
  let streams := redirected.streams
  match redirection.direction with
  | .duplicate =>
    .ok { redirected with
      streams := streams.set redirection.descriptor (streams.sink (number target)) }
  | .read =>
    match readFile tree target with
    | .ok bytes => .ok { redirected with input := some bytes }
    | .error _ => .error (bytesOf "cannot open " ++ target ++ bytesOf ": No such file")
  | _ =>
    .ok { redirected with
      streams := streams.set redirection.descriptor (fileSink streams target) }

def redirectAll (substitute : Substitution) (process : Process) (redirected : Redirected) :
    List Redirection → Process × Except Bytes Redirected
  | [] => (process, .ok redirected)
  | redirection :: rest =>
    let (process, target) := expandText substitute process redirection.target
    match redirect process.tree redirected redirection target with
    | .ok redirected => redirectAll substitute process redirected rest
    | .error message => (process, .error message)

/-- Run a command by its fields. -/
def runFields (process : Process) (line : Nat) (streams : Streams) : List Bytes → Process
  | [] => process
  | name :: arguments =>
    match Utility.find? name with
    | some utility => utility.run streams line process arguments
    | none => process.complain streams.errors line (name ++ bytesOf ": not found") 127

/-- Run a command. Without words its assignments stay; otherwise they are made for the
command alone. -/
def runCommand (substitute : Substitution) (process : Process) (command : Command) :
    Process :=
  let (process, fields) := expandWords substitute process command.words
  let outer := process.bindings
  let process :=
    assignAll substitute (if fields.isEmpty then process.withStatus 0 else process)
      command.assignments
  match redirectAll substitute process ⟨.standard, none⟩ command.redirections with
  | (process, .error message) => process.complain .errors command.line message 2
  | (process, .ok redirected) =>
    match redirected.input with
    | none =>
      let process := runFields process command.line redirected.streams fields
      if fields.isEmpty then process else { process with bindings := outer }
    | some input =>
      let kept := process.input
      let process := runFields { process with input } command.line redirected.streams fields
      { process with input := kept, bindings := outer }

/-- Run commands of which each one but the first reads what the one before it writes.
The given process has the input of the first one and no output. -/
def runConnected (substitute : Substitution) (process : Process) : List Command → Process
  | [] => process
  | [command] => runCommand substitute process command
  | command :: rest =>
    let first := runCommand substitute { process with output := [] } command
    let others := runConnected substitute
      { process with input := first.output, errors := first.errors } rest
    { others with input := first.input }

/-- Run a pipeline. Several commands leave nothing behind but what they read and write,
and the status of the last one. -/
def runPipeline (substitute : Substitution) (process : Process) (pipeline : List Command) :
    Process :=
  match pipeline with
  | [command] => runCommand substitute process command
  | _ =>
    let last := runConnected substitute process pipeline
    let status :=
      match last.ended with
      | some (.code status) => status
      | _ => last.status
    { process with input := last.input, output := last.output, errors := last.errors, status }

/-- The pipeline of a step is to be run. -/
def Step.isDue (step : Step) (status : Nat) : Bool :=
  match step.link with
  | .always => true
  | .onSuccess => status == 0
  | .onFailure => status != 0

/-- Run steps until the script ends. -/
def runSteps (substitute : Substitution) (process : Process) : List Step → Process
  | [] => process
  | step :: rest =>
    let process :=
      if process.ended.isNone && step.isDue process.status then
        runPipeline substitute process step.pipeline
      else process
    runSteps substitute process rest

/-- Run the text of a script; a fault in it ends the script. Scripts within its words
are shorter than it, which bounds their depth. -/
def runText (depth : Nat) (process : Process) (text : Bytes) : Process :=
  match depth with
  | 0 => process
  | depth + 1 =>
    let script := Script.read text
    let substitute : Substitution := fun process text =>
      let inner := runText depth process text
      match inner.ended with
      | some (.code status) => inner.withStatus status
      | _ => inner
    let process := runSteps substitute process script.steps
    match process.ended, script.fault with
    | none, some (line, e) =>
      (process.complain .errors line (bytesOf e.message) 2).finish (.code 2)
    | _, _ => process

/-- What a script leaves when it has ended. -/
structure Finished where
  status : ExitStatus
  output : List UInt8
  errors : List UInt8

def Process.finished (process : Process) : Finished :=
  ⟨process.ended.getD (.code process.status), octets process.output, octets process.errors⟩

def runScript (process : Process) (text : Bytes) : Finished :=
  (runText (text.length + 1) process text).finished

/-- Run a shell with arguments: a script after `-c`, a script in a file, or the script
that the input is. -/
def run (tree : FileTree) (arguments : List Bytes) (input : Bytes) : Finished :=
  let name := bytesOf "sh"
  match arguments with
  | [] => runScript (.start tree name [] []) input
  | ['-', 'c'] :: script :: rest =>
    runScript (.start tree (rest.headD name) rest.tail input) script
  | file :: rest =>
    match readFile tree file with
    | .ok script => runScript (.start tree file rest input) script
    | .error .isDirectory => ⟨.code 0, [], []⟩
    | .error _ =>
      let process := (Process.start tree name [] []).complain .errors 0
        (bytesOf "cannot open " ++ file ++ bytesOf ": No such file") 2
      process.finished

end ChunkPrune.Shell
