import ChunkPrune.Json.Basic

/-!
# Numbers as they are written

A number is first taken apart into its digits; its value comes after. Whole numbers
within 64 bits are exact. Any other number is read from the digits of the longest
start of its significand that fits in 64 bits, with one rounding to a double and one
multiplication or division by a power of ten.
-/

namespace ChunkPrune.Json

/-- A number taken apart: `-whole.fraction e-exponent`. -/
structure NumberText where
  negative : Bool
  whole : List Char
  fraction : Option (List Char)
  exponent : Option (Bool × List Char)
  deriving DecidableEq, Repr

namespace NumberText

def digitValue (c : Char) : Nat := c.toNat - '0'.toNat

/-- The number that a row of digits continues. -/
def digitsValue (start : Nat) (digits : List Char) : Nat :=
  digits.foldl (fun n c => 10 * n + digitValue c) start

/-- The first whole number that does not fit in 64 bits without sign. -/
def wordBound : Nat := Nat.pow 2 64

/-- The greatest exponent that is added up; a greater one stands for itself. -/
def exponentBound : Nat := Nat.pow 2 31

/-- Read digits while the number stays within 64 bits; the rest is given back. -/
def takeWord (significand : Nat) : List Char → Nat × List Char
  | [] => (significand, [])
  | c :: rest =>
    let next := 10 * significand + digitValue c
    if next < wordBound then takeWord next rest else (significand, c :: rest)

/-- A number divided by the power of ten with exponent 308, so many times. Nothing is
left to do once it is zero. -/
def divideSteps : Nat → Binary64 → Option Binary64
  | 0, x => some x
  | steps + 1, x =>
    if x.isZero then some x
    else do divideSteps steps (← x.div? (← Binary64.pow10? 308))

/-- A number divided by a power of ten, in steps of at most `1e308`. -/
def divideByPower (x : Binary64) (power : Nat) : Option Binary64 := do
  let steps := (power - 1) / 308
  let x ← divideSteps steps x
  if x.isZero then some x else x.div? (← Binary64.pow10? (power - 308 * steps))

/-- The double `significand * 10 ^ exponent`, if it is in range. -/
def scaled? (significand : Nat) (exponent : Int) : Option Binary64 := do
  let x ← Binary64.ofNat? significand
  if 308 < exponent then if x.isZero then some x else none
  else if 0 ≤ exponent then x.mul? (← Binary64.pow10? exponent.toNat)
  else divideByPower x (-exponent).toNat

/-- The exponent part applied to a significand with an exponent of its own. -/
def withExponent? (significand : Nat) (start : Int) :
    Option (Bool × List Char) → Option Binary64
  | none => scaled? significand start
  | some (down, digits) =>
    let power := digitsValue 0 digits
    if exponentBound ≤ power then
      if significand ≠ 0 ∧ !down then none else some Binary64.zero
    else scaled? significand (if down then start - power else start + power)

/-- The double of a number with a fraction or an exponent, without its sign. -/
def double? (text : NumberText) : Option Binary64 :=
  let (significand, dropped) := takeWord 0 text.whole
  let start : Int := dropped.length
  match text.fraction with
  | none => withExponent? significand start text.exponent
  | some fraction =>
    let (significand, dropped) := takeWord significand fraction
    let read := fraction.length - dropped.length
    withExponent? significand (start - read) text.exponent

/-- The value of a number, if it is in range. The integer minus zero is a double. -/
def value? (text : NumberText) : Option Number :=
  let signed (x : Binary64) : Number := .double (if text.negative then x.neg else x)
  let whole := digitsValue 0 text.whole
  if text.fraction.isNone && text.exponent.isNone && whole < wordBound then
    if !text.negative then some (.integer whole)
    else if whole ≠ 0 ∧ whole ≤ Nat.pow 2 63 then some (.integer (-(whole : Int)))
    else (Binary64.ofNat? whole).map signed
  else text.double?.map signed

end NumberText

end ChunkPrune.Json
