/-!
# Reading UTF-8

Bytes are cut into characters and, where they are not UTF-8, into the longest starts of
characters that they hold. Strict reading fails at the first such start; lenient reading
puts a replacement character in its place.
-/

namespace ChunkPrune

/-- Where bytes stop being UTF-8: after how many, and how many make up the first
wrong sequence, unless the bytes only end too early. -/
structure Utf8Error where
  valid : Nat
  wrong : Option Nat
  deriving DecidableEq, Repr

def Utf8Error.message (e : Utf8Error) : String :=
  match e.wrong with
  | some count =>
    "invalid utf-8 sequence of " ++ toString count ++ " bytes from index " ++ toString e.valid
  | none => "incomplete utf-8 byte sequence from index " ++ toString e.valid

namespace Utf8

/-- The least and the greatest number that a byte may have. -/
structure ByteRange where
  least : Nat
  greatest : Nat

namespace ByteRange

def holds (range : ByteRange) (byte : UInt8) : Bool :=
  range.least ≤ byte.toNat && byte.toNat ≤ range.greatest

/-- The bytes that continue a character. -/
def tail : ByteRange := ⟨0x80, 0xBF⟩

end ByteRange

/-- The bytes that must follow the first byte of a character, if it can be one. -/
def followers? (first : UInt8) : Option (List ByteRange) :=
  let n := first.toNat
  if n ≤ 0x7F then some []
  else if 0xC2 ≤ n && n ≤ 0xDF then some [.tail]
  else if n = 0xE0 then some [⟨0xA0, 0xBF⟩, .tail]
  else if n = 0xED then some [⟨0x80, 0x9F⟩, .tail]
  else if 0xE1 ≤ n && n ≤ 0xEF then some [.tail, .tail]
  else if n = 0xF0 then some [⟨0x90, 0xBF⟩, .tail, .tail]
  else if 0xF1 ≤ n && n ≤ 0xF3 then some [.tail, .tail, .tail]
  else if n = 0xF4 then some [⟨0x80, 0x8F⟩, .tail, .tail]
  else none

/-- The number of bytes that lie in the ranges, one after another. -/
def fitting : List ByteRange → List UInt8 → Nat
  | range :: ranges, byte :: bytes =>
    if range.holds byte then fitting ranges bytes + 1 else 0
  | _, _ => 0

/-- What stands at the start of bytes: a character, or the start of one that something
else or nothing follows. -/
inductive Head where
  | char (value : Char)
  | wrong
  | cut
  deriving DecidableEq, Repr

/-- The number of bits that the first byte of a character gives, by the number of bytes
after it. -/
def leadBits : Nat → Nat
  | 0 => 7
  | count => 6 - count

/-- The character of a first byte and the bytes after it. -/
def assemble (first : UInt8) (others : List UInt8) : Char :=
  Char.ofNat <| others.foldl (fun value byte => value * 64 + byte.toNat % 64)
    (first.toNat % Nat.pow 2 (leadBits others.length))

/-- The head of bytes after a first byte, with the number of bytes it takes of them. -/
def headAfter (first : UInt8) (bytes : List UInt8) : Head × Nat :=
  match followers? first with
  | none => (.wrong, 0)
  | some ranges =>
    let count := fitting ranges bytes
    if count = ranges.length then (.char (assemble first (bytes.take count)), count)
    else if count = bytes.length then (.cut, count)
    else (.wrong, count)

/-- The heads of bytes with their lengths, after those found already, of which the
last stands first. -/
def headsFrom (found : List (Head × Nat)) (bytes : List UInt8) : List (Head × Nat) :=
  match bytes with
  | [] => found.reverse
  | first :: rest =>
    let (head, count) := headAfter first rest
    headsFrom ((head, count + 1) :: found) (rest.drop count)
termination_by bytes.length
decreasing_by
  rw [List.length_drop]
  exact Nat.lt_succ_of_le (Nat.sub_le ..)

/-- The heads of bytes with their lengths, from the first byte to the last. -/
def heads (bytes : List UInt8) : List (Head × Nat) := headsFrom [] bytes

/-- The first head that is no character, with what comes before it. -/
def firstError? (valid : Nat) : List (Head × Nat) → Option Utf8Error
  | [] => none
  | (.char _, count) :: rest => firstError? (valid + count) rest
  | (.wrong, count) :: _ => some ⟨valid, some count⟩
  | (.cut, _) :: _ => some ⟨valid, none⟩

/-- A character, or the replacement of what is none. -/
def Head.orReplacement : Head → Char
  | .char value => value
  | _ => '\uFFFD'

/-- The text of bytes, if they are UTF-8. -/
def decode (bytes : List UInt8) : Except Utf8Error String :=
  let heads := heads bytes
  match firstError? 0 heads with
  | some e => .error e
  | none => .ok (String.ofList (heads.map (·.1.orReplacement)))

/-- The text of bytes, with a replacement for each sequence that is no character. -/
def decodeLenient (bytes : List UInt8) : String :=
  String.ofList ((heads bytes).map (·.1.orReplacement))

end Utf8

end ChunkPrune
