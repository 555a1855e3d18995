import ChunkPrune.Shell.Word

/-!
# What `echo` and `printf` write

Both write their arguments with escapes resolved. A format is used again as long as
there are arguments left; where there are none, an empty text or zero is written.
-/

namespace ChunkPrune.Shell

/-! ## Escapes -/

/-- What a backslash with the characters after it means: a byte and the number of those
characters, or the end of all output. -/
inductive Escape where
  | byte (c : Char) (length : Nat)
  | stop

def isOctal (c : Char) : Bool := '0' ≤ c && c ≤ '7'

def octalByte (digits : Bytes) : Char :=
  Char.ofNat (digits.foldl (fun n c => 8 * n + (c.toNat - '0'.toNat)) 0 % 256)

/-- The byte that a letter stands for. -/
def letterByte? : Char → Option Char
  | 'a' => some '\x07'
  | 'b' => some '\x08'
  | 'e' => some '\x1b'
  | 'f' => some '\x0c'
  | 'n' => some '\n'
  | 'r' => some '\r'
  | 't' => some '\t'
  | 'v' => some '\x0b'
  | '\\' => some '\\'
  | _ => none

/-- The escape in a format: a letter, or up to three octal digits. -/
def formatEscape? (cs : Bytes) : Option Escape :=
  match (cs.take 3).takeWhile isOctal with
  | [] => (cs.head?.bind letterByte?).map fun c => .byte c 1
  | digits => some (.byte (octalByte digits) digits.length)

/-- The escape in an argument: as in a format, but a zero may stand before the octal
digits, and a `c` ends the output. -/
def argumentEscape? (cs : Bytes) : Option Escape :=
  match cs with
  | 'c' :: _ => some .stop
  | '0' :: rest =>
    let digits := (rest.take 3).takeWhile isOctal
    some (.byte (octalByte digits) (digits.length + 1))
  | _ => formatEscape? cs

/-- An argument with its escapes resolved, and whether the output goes on after it. -/
def unescape (cs : Bytes) : Bytes × Bool :=
  match cs with
  | [] => ([], true)
  | c :: rest =>
    if c = '\\' then
      match argumentEscape? rest with
      | some .stop => ([], false)
      | some (.byte c length) =>
        let (text, goesOn) := unescape (rest.drop length)
        (c :: text, goesOn)
      | none =>
        let (text, goesOn) := unescape rest
        ('\\' :: text, goesOn)
    else
      let (text, goesOn) := unescape rest
      (c :: text, goesOn)
termination_by cs.length
decreasing_by
  · rw [List.length_drop]
    exact Nat.lt_succ_of_le (Nat.sub_le ..)
  all_goals exact Nat.lt_succ_self _

/-- The arguments with blanks between them, and a new line unless the first argument
refuses it. -/
def echo (arguments : List Bytes) : Bytes :=
  let (arguments, newline) :=
    match arguments with
    | ['-', 'n'] :: rest => (rest, [])
    | _ => (arguments, ['\n'])
  let (text, goesOn) := unescape ([' '].intercalate arguments)
  if goesOn then text ++ newline else text

/-! ## Formats -/

/-- What becomes of an argument. -/
inductive Conversion where
  | text
  | escaped
  | firstByte
  | decimal
  | hexadecimal
  deriving DecidableEq, Repr

/-- A part of a format. A field is padded to its width, on its right side when asked
for, and with zeros when asked for. -/
inductive Directive where
  | bytes (text : Bytes)
  | field (left zeros : Bool) (width : Nat) (precision : Option Nat) (conversion : Conversion)
  deriving Repr

def conversion? : Char → Option Conversion
  | 's' => some .text
  | 'b' => some .escaped
  | 'c' => some .firstByte
  | 'd' => some .decimal
  | 'i' => some .decimal
  | 'u' => some .decimal
  | 'x' => some .hexadecimal
  | _ => none

/-- The directive after a percent sign, and the number of its characters. -/
def directive? (cs : Bytes) : Option (Directive × Nat) :=
  match cs with
  | '%' :: _ => some (.bytes ['%'], 1)
  | _ =>
    let flags := cs.takeWhile fun c => c == '-' || c == '0'
    let rest := cs.drop flags.length
    let width := rest.takeWhile Char.isDigit
    let rest := rest.drop width.length
    let (precision, length) : Option Nat × Nat :=
      match rest with
      | '.' :: after =>
        let digits := after.takeWhile Char.isDigit
        (some (number digits), digits.length + 1)
      | _ => (none, 0)
    ((rest.drop length).head?.bind conversion?).map fun conversion =>
      (.field (flags.contains '-') (flags.contains '0') (number width) precision conversion,
        flags.length + width.length + length + 1)

/-- The directives of a format, up to one that is not known. -/
def directives (cs : Bytes) : List Directive :=
  match cs with
  | [] => []
  | c :: rest =>
    if c = '%' then
      match directive? rest with
      | some (directive, length) => directive :: directives (rest.drop length)
      | none => []
    else if c = '\\' then
      match formatEscape? rest with
      | some (.byte c length) => .bytes [c] :: directives (rest.drop length)
      | _ => .bytes ['\\'] :: directives rest
    else .bytes [c] :: directives rest
termination_by cs.length
decreasing_by
  · rw [List.length_drop]
    exact Nat.lt_succ_of_le (Nat.sub_le ..)
  · rw [List.length_drop]
    exact Nat.lt_succ_of_le (Nat.sub_le ..)
  all_goals exact Nat.lt_succ_self _

/-- The number that an argument is; what is no number counts as zero. -/
def integerOf (argument : Bytes) : Int :=
  match argument with
  | '-' :: digits => if digits.all Char.isDigit then -number digits else 0
  | digits => if digits.all Char.isDigit then number digits else 0

def pad (left zeros : Bool) (width : Nat) (text : Bytes) : Bytes :=
  let missing := width - text.length
  if left then text ++ List.replicate missing ' '
  else
    match zeros, text with
    | true, '-' :: digits => '-' :: List.replicate missing '0' ++ digits
    | true, digits => List.replicate missing '0' ++ digits
    | false, text => List.replicate missing ' ' ++ text

/-- An argument as a field, and whether the output goes on after it. -/
def convert (conversion : Conversion) (precision : Option Nat) (argument : Bytes) :
    Bytes × Bool :=
  let cut (text : Bytes) : Bytes :=
    match precision with
    | some length => text.take length
    | none => text
  match conversion with
  | .text => (cut argument, true)
  | .escaped =>
    let (text, goesOn) := unescape argument
    (cut text, goesOn)
  | .firstByte => ([argument.headD '\x00'], true)
  | .decimal => ((toString (integerOf argument)).toList, true)
  | .hexadecimal => (Nat.toDigits 16 (integerOf argument).toNat, true)

/-- What a format writes for some arguments, the arguments left, and whether the output
goes on. -/
def formatOnce : List Directive → List Bytes → Bytes × List Bytes × Bool
  | [], arguments => ([], arguments, true)
  | .bytes text :: rest, arguments =>
    let (after, left, goesOn) := formatOnce rest arguments
    (text ++ after, left, goesOn)
  | .field left zeros width precision conversion :: rest, arguments =>
    let (text, goesOn) := convert conversion precision (arguments.headD [])
    let text := pad left (zeros && conversion != .text) width text
    if goesOn then
      let (after, arguments, goesOn) := formatOnce rest arguments.tail
      (text ++ after, arguments, goesOn)
    else (text, arguments.tail, false)

/-- Use a format until no argument is left or none is used. -/
def formatAll (directives : List Directive) (arguments : List Bytes) : Bytes :=
  let (text, rest, goesOn) := formatOnce directives arguments
  if goesOn ∧ rest ≠ [] ∧ rest.length < arguments.length then
    text ++ formatAll directives rest
  else text
termination_by arguments.length

/-- The first argument is the format for the others. -/
def printf : List Bytes → Bytes
  | ['-', '-'] :: format :: arguments => formatAll (directives format) arguments
  | format :: arguments => formatAll (directives format) arguments
  | [] => []

end ChunkPrune.Shell
