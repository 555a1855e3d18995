import ChunkPrune.Shell.Word

/-!
# Scripts of a shell

A script is a list of pipelines. A pipeline is run always, or only after the one before
it went well, or only after that failed. Each of its commands is a list of words with
assignments before them and redirections among them.
-/

namespace ChunkPrune.Shell

structure Redirection where
  descriptor : Nat
  direction : Direction
  target : Word
  deriving DecidableEq, Repr

structure Command where
  line : Nat
  assignments : List (Bytes × Word)
  words : List Word
  redirections : List Redirection
  deriving DecidableEq, Repr

/-- When a pipeline is run. -/
inductive Link where
  | always
  | onSuccess
  | onFailure
  deriving DecidableEq, Repr

structure Step where
  link : Link
  pipeline : List Command
  deriving DecidableEq, Repr

inductive SyntaxError where
  | unclosedQuote
  | unexpected (symbol : String)
  | unexpectedEnd
  deriving DecidableEq, Repr

def SyntaxError.message : SyntaxError → String
  | unclosedQuote => "Syntax error: Unterminated quoted string"
  | unexpected symbol => "Syntax error: " ++ symbol ++ " unexpected"
  | unexpectedEnd => "Syntax error: end of file unexpected"

/-- The steps of all lines before the first one with a fault, and the fault with its
line. -/
structure Script where
  steps : List Step
  fault : Option (Nat × SyntaxError)
  deriving DecidableEq, Repr

/-- A name and the rest of a word after an equality sign. -/
def assignment? (word : Word) : Option (Bytes × Word) :=
  match word with
  | .text value false :: rest =>
    let name := value.takeWhile isNameChar
    match value.drop name.length with
    | '=' :: after =>
      if name.head?.any isNameStart then some (name, .text after true :: rest) else none
    | _ => none
  | _ => none

def Symbol.name : Symbol → String
  | word _ => "word"
  | redirect _ _ => "redirection"
  | newline => "newline"
  | semicolon => "\";\""
  | background => "\"&\""
  | pipe => "\"|\""
  | both => "\"&&\""
  | either => "\"||\""
  | other c => "\"" ++ String.singleton c ++ "\""

/-- The script so far: the steps of the lines before, those of the current line, the link
and the commands of the next step, the command that is being read, and a redirection
without its target. Of each list the last item stands first. -/
structure ScriptReader where
  lines : List Step
  steps : List Step
  link : Link
  pipeline : List Command
  command : Option Command
  redirect : Option (Nat × Direction)

namespace ScriptReader

def initial : ScriptReader := ⟨[], [], .always, [], none, none⟩

/-- The command that is being read. -/
def current (reader : ScriptReader) (line : Nat) : Command :=
  reader.command.getD ⟨line, [], [], []⟩

def addWord (reader : ScriptReader) (line : Nat) (word : Word) : ScriptReader :=
  let command := reader.current line
  match reader.redirect with
  | some (descriptor, direction) =>
    let redirections := command.redirections ++ [⟨descriptor, direction, word⟩]
    { reader with command := some { command with redirections }, redirect := none }
  | none =>
    match command.words, assignment? word with
    | [], some assignment =>
      { reader with
        command := some
          { command with assignments := command.assignments ++ [assignment] } }
    | words, _ => { reader with command := some { command with words := words ++ [word] } }

/-- Close the pipeline; the next one has a link of its own. -/
def close (reader : ScriptReader) (command : Command) (link : Link) : ScriptReader :=
  let pipeline := (command :: reader.pipeline).reverse
  { reader with
    steps := ⟨reader.link, pipeline⟩ :: reader.steps
    link
    pipeline := []
    command := none }

/-- Nothing has to follow. -/
def isComplete (reader : ScriptReader) : Bool :=
  reader.pipeline.isEmpty && reader.link = .always

/-- Close the line, unless something has to follow on the next one. -/
def closeLine (reader : ScriptReader) : ScriptReader :=
  if reader.isComplete then { reader with lines := reader.steps ++ reader.lines, steps := [] }
  else reader

/-- An operator that stands between commands. -/
def stepOperator (reader : ScriptReader) (symbol : Symbol) :
    Except SyntaxError ScriptReader :=
  match reader.redirect, reader.command, symbol with
  | some _, _, _ => .error (.unexpected symbol.name)
  | none, none, .newline => .ok reader.closeLine
  | none, none, _ => .error (.unexpected symbol.name)
  | none, some command, .pipe =>
    .ok { reader with pipeline := command :: reader.pipeline, command := none }
  | none, some command, .both => .ok (reader.close command .onSuccess)
  | none, some command, .either => .ok (reader.close command .onFailure)
  | none, some command, .newline => .ok (reader.close command .always).closeLine
  | none, some command, _ => .ok (reader.close command .always)

/-- The descriptor that a redirection has when none is given. -/
def defaultDescriptor : Direction → Nat
  | .read => 0
  | _ => 1

def step (reader : ScriptReader) (token : Token) : Except SyntaxError ScriptReader :=
  match token.symbol with
  | .word word => .ok (reader.addWord token.line word)
  | .redirect descriptor direction =>
    match reader.redirect with
    | some _ => .error (.unexpected token.symbol.name)
    | none =>
      .ok { reader with
        command := some (reader.current token.line)
        redirect := some (descriptor.getD (defaultDescriptor direction), direction) }
  | .other c => .error (.unexpected (Symbol.other c).name)
  | symbol => reader.stepOperator symbol

/-- The reader at the end of a script. -/
def finish (reader : ScriptReader) : Except SyntaxError ScriptReader :=
  if reader.redirect.isSome then .error .unexpectedEnd
  else
    match reader.command with
    | some command => .ok (reader.close command .always).closeLine
    | none => if reader.isComplete then .ok reader.closeLine else .error .unexpectedEnd

def readAll (reader : ScriptReader) : List Token → ScriptReader × Option (Nat × SyntaxError)
  | [] => (reader, none)
  | token :: rest =>
    match reader.step token with
    | .ok reader => readAll reader rest
    | .error e => (reader, some (token.lastLine, e))

end ScriptReader

def Script.read (text : Bytes) : Script :=
  let scan := scan text
  let (reader, fault) := ScriptReader.initial.readAll scan.tokens
  let found (reader : ScriptReader) (fault : Option (Nat × SyntaxError)) : Script :=
    ⟨reader.lines.reverse, fault⟩
  if fault.isSome then found reader fault
  else if !scan.closed then found reader (some (scan.line, .unclosedQuote))
  else
    match reader.finish with
    | .ok reader => found reader none
    | .error e => found reader (some (scan.line, e))

end ChunkPrune.Shell
