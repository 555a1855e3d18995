import ChunkPrune.SourceText.Letter
import ChunkPrune.Text.Affix

/-!
# JavaScript tokens

The tokens of plain programs: names, numbers, strings and punctuation, with blanks and
comments between them. Each token knows whether a line ends before it. Regular
expressions and template literals are not among them.
-/

namespace ChunkPrune.SourceText

inductive Lexeme where
  | word (name : String)
  | number
  | string
  | mark (text : String)
  deriving DecidableEq, Repr

structure Token where
  lexeme : Lexeme
  afterNewline : Bool
  deriving DecidableEq, Repr

/-! ## Characters -/

def isLineEnd (c : Char) : Bool :=
  c == '\n' || c == '\r' || c == '\u2028' || c == '\u2029'

def isBlank (c : Char) : Bool :=
  let n := c.toNat
  n == 0x9 || n == 0xB || n == 0xC || n == 0x20 || n == 0xA0 || n == 0xFEFF ||
    n == 0x1680 || (0x2000 ≤ n && n ≤ 0x200A) || n == 0x202F || n == 0x205F || n == 0x3000

/-! ## Tokens -/

/-- Punctuation, longer marks before their beginnings. -/
def marks : List String :=
  [">>>=", "...", "===", "!==", "**=", "<<=", ">>=", ">>>", "&&=", "||=", "??=", "==", "!=",
    "<=", ">=", "&&", "||", "??", "?.", "++", "--", "+=", "-=", "*=", "/=", "%=", "&=", "|=",
    "^=", "<<", ">>", "**", "\x7b", "\x7d", "(", ")", "[", "]", ";", ",", "<", ">", "+", "-",
    "*", "/", "%", "&", "|", "^", "!", "~", "?", ":", "=", "."]

/-- The first mark that the characters start with. -/
def scanMark (cs : List Char) : Option (Lexeme × List Char) :=
  marks.findSome? fun mark =>
    (Text.dropStart? mark.toList cs).map fun rest => (.mark mark, rest)

/-- The rest of a string after its opening quotation mark. -/
def scanString (quote : Char) : List Char → Option (List Char)
  | [] => none
  | '\\' :: _ :: rest => scanString quote rest
  | c :: rest =>
    if c = quote then some rest
    else if c == '\n' || c == '\r' || c == '\\' then none
    else scanString quote rest

/-- A number ends where no name or digit follows. -/
def endNumber (rest : List Char) : Option (List Char) :=
  match rest with
  | c :: _ => if continuesName c then none else some rest
  | [] => some []

/-- An exponent after the digits of a number. -/
def scanExponent : List Char → Option (List Char)
  | c :: rest =>
    if c == 'e' || c == 'E' then
      let rest :=
        match rest with
        | '+' :: rest => rest
        | '-' :: rest => rest
        | rest => rest
      match rest with
      | d :: _ => if isDigit d then some (rest.dropWhile isDigit) else none
      | [] => none
    else some (c :: rest)
  | [] => some []

/-- A number in decimal notation, of which the first digit may be the point. -/
def scanDecimal (cs : List Char) : Option (List Char) :=
  let rest := cs.dropWhile isDigit
  let rest :=
    match rest with
    | '.' :: rest => rest.dropWhile isDigit
    | rest => rest
  (scanExponent rest).bind endNumber

/-- At least one digit of another base. -/
def scanBase (digit : Char → Bool) (cs : List Char) : Option (List Char) :=
  match cs with
  | c :: _ => if digit c then endNumber (cs.dropWhile digit) else none
  | [] => none

def isHexDigit (c : Char) : Bool :=
  isDigit c || ('a' ≤ c && c ≤ 'f') || ('A' ≤ c && c ≤ 'F')

/-- A number: a zero before another digit is not written. -/
def scanNumber : List Char → Option (List Char)
  | '0' :: c :: rest =>
    if c == 'x' || c == 'X' then scanBase isHexDigit rest
    else if c == 'o' || c == 'O' then scanBase (fun d => '0' ≤ d && d ≤ '7') rest
    else if c == 'b' || c == 'B' then scanBase (fun d => d == '0' || d == '1') rest
    else if isDigit c then none
    else scanDecimal ('0' :: c :: rest)
  | cs => scanDecimal cs

/-- What follows a comment in the shape of a block, and whether a line ends in it. -/
def skipBlock (newline : Bool) : List Char → Option (Bool × List Char)
  | '*' :: '/' :: rest => some (newline, rest)
  | c :: rest => skipBlock (newline || isLineEnd c) rest
  | [] => none

/-- The lexeme at the start of some characters. -/
def scanLexeme (cs : List Char) : Option (Lexeme × List Char) :=
  match cs with
  | [] => none
  | c :: rest =>
    if startsName c then
      some (.word (String.ofList (c :: rest.takeWhile continuesName)),
        rest.dropWhile continuesName)
    else if isDigit c || (c == '.' && rest.head?.any isDigit) then
      (scanNumber cs).map fun rest => (.number, rest)
    else if c == '"' || c == '\'' then (scanString c rest).map fun rest => (.string, rest)
    else scanMark cs

/-- The tokens of some characters. The fuel is a bound on their number. -/
def scanFrom (fuel : Nat) (newline : Bool) (cs : List Char) : Option (List Token) :=
  match fuel with
  | 0 => none
  | fuel + 1 =>
    match cs with
    | [] => some []
    | '/' :: '/' :: rest => scanFrom fuel newline (rest.dropWhile fun c => !isLineEnd c)
    | '/' :: '*' :: rest =>
      match skipBlock newline rest with
      | some (newline, rest) => scanFrom fuel newline rest
      | none => none
    | c :: rest =>
      if isLineEnd c then scanFrom fuel true rest
      else if isBlank c then scanFrom fuel newline rest
      else
        match scanLexeme (c :: rest) with
        | some (lexeme, rest) =>
          (scanFrom fuel false rest).map (⟨lexeme, newline⟩ :: ·)
        | none => none

def scan (text : String) : Option (List Token) :=
  let cs := text.toList
  scanFrom (cs.length + 1) true cs

end ChunkPrune.SourceText
