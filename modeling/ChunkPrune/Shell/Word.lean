/-!
# Words of a shell script

A script is cut into words and operators. A word is a list of parts, some of which are
to be replaced when a command is run; only what stands outside quotes is then cut at
blanks. A script and its data are bytes, and a byte is written here as the character
with its number.
-/

namespace ChunkPrune.Shell

abbrev Bytes := List Char

def bytesOf (text : String) : Bytes :=
  text.toUTF8.toList.map fun byte => Char.ofNat byte.toNat

def octets (bytes : Bytes) : List UInt8 := bytes.map fun c => UInt8.ofNat c.toNat

/-- What a dollar sign stands for with the characters after it. -/
inductive Parameter where
  | variable (name : Bytes)
  | argument (index : Nat)
  | arguments
  | joinedArguments
  | count
  | status
  | process
  deriving DecidableEq, Repr

/-- A part of a word, inside or outside double quotes. Between single quotes there is
only text. -/
inductive Part where
  | text (value : Bytes) (quoted : Bool)
  | value (parameter : Parameter) (quoted : Bool)
  | output (script : Bytes) (quoted : Bool)
  deriving DecidableEq, Repr

abbrev Word := List Part

/-- What a redirection does with its descriptor. -/
inductive Direction where
  | write
  | append
  | read
  | duplicate
  deriving DecidableEq, Repr

inductive Symbol where
  | word (parts : Word)
  | redirect (descriptor : Option Nat) (direction : Direction)
  | newline
  | semicolon
  | background
  | pipe
  | both
  | either
  | other (c : Char)
  deriving DecidableEq, Repr

/-- A symbol with its line. -/
structure Token where
  line : Nat
  symbol : Symbol
  deriving DecidableEq, Repr

/-- The line that the scanner has reached after a token. -/
def Token.lastLine (token : Token) : Nat :=
  if token.symbol = .newline then token.line + 1 else token.line

/-! ## The scanner -/

/-- What the characters read last have begun. Texts have their last character first. -/
inductive Mode where
  | bare
  | escaped
  | single (text : Bytes)
  | double (text : Bytes) (fresh : Bool)
  | doubleEscaped (text : Bytes)
  | dollar (quoted : Bool)
  | name (text : Bytes) (quoted : Bool)
  | braces (text : Bytes) (quoted : Bool)
  | output (text : Bytes) (depth : Nat) (quoted : Bool)
  | backquotes (text : Bytes) (quoted : Bool)
  | sign (c : Char)
  | angle (descriptor : Option Nat) (c : Char)
  | comment

/-- The tokens before the current word, the parts of the word, and its text that is not
yet a part; of all three the last one stands first. -/
structure Scanner where
  tokens : List Token
  word : Option Word
  run : Bytes
  mode : Mode
  line : Nat

def isNameStart (c : Char) : Bool := c.isAlpha || c == '_'

def isNameChar (c : Char) : Bool := isNameStart c || c.isDigit

def number (digits : Bytes) : Nat :=
  digits.foldl (fun n c => 10 * n + (c.toNat - '0'.toNat)) 0

def special? (c : Char) : Option Parameter :=
  if c.isDigit then some (.argument (c.toNat - '0'.toNat))
  else
    match c with
    | '@' => some .arguments
    | '*' => some .joinedArguments
    | '#' => some .count
    | '?' => some .status
    | '$' => some .process
    | _ => none

def bracedParameter (text : Bytes) : Parameter :=
  if text ≠ [] ∧ text.all Char.isDigit then .argument (number text)
  else
    match text with
    | [c] => (special? c).getD (.variable text)
    | _ => .variable text

namespace Scanner

def initial : Scanner := ⟨[], none, [], .bare, 1⟩

def push (scanner : Scanner) (symbol : Symbol) : Scanner :=
  { scanner with tokens := ⟨scanner.line, symbol⟩ :: scanner.tokens, mode := .bare }

/-- Make the open text a part of the word. -/
def flush (scanner : Scanner) : Scanner :=
  if scanner.run.isEmpty then scanner
  else
    { scanner with
      word := some (.text scanner.run.reverse false :: scanner.word.getD [])
      run := [] }

def addPart (scanner : Scanner) (part : Part) : Scanner :=
  let scanner := scanner.flush
  { scanner with word := some (part :: scanner.word.getD []) }

def endWord (scanner : Scanner) : Scanner :=
  let scanner := scanner.flush
  match scanner.word with
  | some parts => { scanner.push (.word parts.reverse) with word := none }
  | none => scanner

/-- Text in double quotes up to here. -/
def addDouble (scanner : Scanner) (text : Bytes) (fresh : Bool) : Scanner :=
  if text.isEmpty && !fresh then scanner else scanner.addPart (.text text.reverse true)

/-- Go on inside or outside double quotes. -/
def resume (scanner : Scanner) (quoted : Bool) : Scanner :=
  { scanner with mode := if quoted then .double [] false else .bare }

/-- Digits directly before an angle are its descriptor. -/
def openAngle (scanner : Scanner) (c : Char) : Scanner :=
  if scanner.word.isNone && !scanner.run.isEmpty && scanner.run.all Char.isDigit then
    { scanner with run := [], mode := .angle (some (number scanner.run.reverse)) c }
  else { scanner.endWord with mode := .angle none c }

def stepBare (scanner : Scanner) (c : Char) : Scanner :=
  let scanner := { scanner with mode := .bare }
  match c with
  | ' ' => scanner.endWord
  | '\t' => scanner.endWord
  | '\n' => scanner.endWord.push .newline
  | ';' => scanner.endWord.push .semicolon
  | '(' => scanner.endWord.push (.other c)
  | ')' => scanner.endWord.push (.other c)
  | '&' => { scanner.endWord with mode := .sign c }
  | '|' => { scanner.endWord with mode := .sign c }
  | '>' => scanner.openAngle c
  | '<' => scanner.openAngle c
  | '\'' => { scanner with mode := .single [] }
  | '"' => { scanner with mode := .double [] true }
  | '\\' => { scanner with mode := .escaped }
  | '$' => { scanner with mode := .dollar false }
  | '\x60' => { scanner with mode := .backquotes [] false }
  | _ =>
    if c = '#' ∧ scanner.word.isNone ∧ scanner.run.isEmpty then
      { scanner with mode := .comment }
    else { scanner with run := c :: scanner.run }

def stepDouble (scanner : Scanner) (text : Bytes) (fresh : Bool) (c : Char) : Scanner :=
  match c with
  | '"' => { scanner.addDouble text fresh with mode := .bare }
  | '\\' => { scanner with mode := .doubleEscaped text }
  | '$' => { scanner.addDouble text false with mode := .dollar true }
  | '\x60' => { scanner.addDouble text false with mode := .backquotes [] true }
  | _ => { scanner with mode := .double (c :: text) false }

/-- A character after something that ended before it. -/
def stepAfter (scanner : Scanner) (quoted : Bool) (c : Char) : Scanner :=
  if quoted then scanner.stepDouble [] false c else scanner.stepBare c

/-- A character after a dollar sign. -/
def stepDollar (scanner : Scanner) (quoted : Bool) (c : Char) : Scanner :=
  match special? c with
  | some parameter => (scanner.addPart (.value parameter quoted)).resume quoted
  | none =>
    if isNameStart c then { scanner with mode := .name [c] quoted }
    else if c = '(' then { scanner with mode := .output [] 0 quoted }
    else if c = '\x7b' then { scanner with mode := .braces [] quoted }
    else (scanner.addPart (.text ['$'] quoted)).stepAfter quoted c

/-- A character after the start of an operator. -/
def stepSign (scanner : Scanner) (first c : Char) : Scanner :=
  if c = first then scanner.push (if first = '&' then .both else .either)
  else (scanner.push (if first = '&' then .background else .pipe)).stepBare c

/-- A character after an angle. -/
def stepAngle (scanner : Scanner) (descriptor : Option Nat) (first c : Char) : Scanner :=
  if c = '&' then scanner.push (.redirect descriptor .duplicate)
  else if first = '>' then
    if c = '>' then scanner.push (.redirect descriptor .append)
    else (scanner.push (.redirect descriptor .write)).stepBare c
  else if c = '<' then scanner.push (.other c)
  else (scanner.push (.redirect descriptor .read)).stepBare c

/-- A character in the current mode. -/
def stepMode (scanner : Scanner) (c : Char) : Scanner :=
  match scanner.mode with
  | .bare => scanner.stepBare c
  | .escaped =>
    if c = '\n' then { scanner with mode := .bare }
    else { scanner.addPart (.text [c] true) with mode := .bare }
  | .single text =>
    if c = '\'' then { scanner.addPart (.text text.reverse true) with mode := .bare }
    else { scanner with mode := .single (c :: text) }
  | .double text fresh => scanner.stepDouble text fresh c
  | .doubleEscaped text =>
    if c = '\n' then { scanner with mode := .double text false }
    else if c = '$' ∨ c = '"' ∨ c = '\\' ∨ c = '\x60' then
      { scanner with mode := .double (c :: text) false }
    else { scanner with mode := .double (c :: '\\' :: text) false }
  | .dollar quoted => scanner.stepDollar quoted c
  | .name text quoted =>
    if isNameChar c then { scanner with mode := .name (c :: text) quoted }
    else (scanner.addPart (.value (.variable text.reverse) quoted)).stepAfter quoted c
  | .braces text quoted =>
    if c = '\x7d' then
      (scanner.addPart (.value (bracedParameter text.reverse) quoted)).resume quoted
    else { scanner with mode := .braces (c :: text) quoted }
  | .output text depth quoted =>
    if c = ')' ∧ depth = 0 then
      (scanner.addPart (.output text.reverse quoted)).resume quoted
    else
      let depth := if c = '(' then depth + 1 else if c = ')' then depth - 1 else depth
      { scanner with mode := .output (c :: text) depth quoted }
  | .backquotes text quoted =>
    if c = '\x60' then (scanner.addPart (.output text.reverse quoted)).resume quoted
    else { scanner with mode := .backquotes (c :: text) quoted }
  | .sign first => scanner.stepSign first c
  | .angle descriptor first => scanner.stepAngle descriptor first c
  | .comment => if c = '\n' then scanner.stepBare c else scanner

def step (scanner : Scanner) (c : Char) : Scanner :=
  let next := scanner.stepMode c
  if c = '\n' then { next with line := next.line + 1 } else next

/-- Nothing is open. -/
def isClosed (scanner : Scanner) : Bool :=
  match scanner.mode with
  | .bare => true
  | _ => false

end Scanner

/-- The tokens of a script, the number of its last line, and whether all its quotes are
closed. The end of the script ends the last word as the end of a line does. -/
structure Scan where
  tokens : List Token
  line : Nat
  closed : Bool
  deriving Repr

def scan (script : Bytes) : Scan :=
  let scanner := script.foldl Scanner.step .initial
  let last := scanner.step '\n'
  let tokens := if last.isClosed then last.tokens.tail else last.tokens
  ⟨tokens.reverse, scanner.line, last.isClosed⟩

end ChunkPrune.Shell
