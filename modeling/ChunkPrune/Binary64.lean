/-!
# Double precision numbers

A finite number of the binary64 format is a sign, a significand below `2 ^ 53` and a
power of two. Each operation computes the exact quotient of two naturals and rounds
it once, to the nearest number of the format and to the even one of two neighbours;
a result beyond the largest number has no value here.
-/

namespace ChunkPrune

/-- A finite binary64 number: `± significand * 2 ^ exponent`. The significand is at
least `2 ^ 52` unless the exponent is the least one. -/
structure Binary64 where
  negative : Bool
  significand : Nat
  exponent : Int
  deriving DecidableEq, Repr

/-- The quotient rounded to the nearest natural, a half to the even neighbour. -/
def roundDiv (num den : Nat) : Nat :=
  let quotient := num / den
  let rest := num % den
  if 2 * rest < den then quotient
  else if den < 2 * rest then quotient + 1
  else if quotient % 2 = 0 then quotient
  else quotient + 1

namespace Binary64

/-- The exponent of the smallest positive number. -/
def leastExponent : Int := -1074

/-- The exponent of the largest numbers. -/
def greatestExponent : Int := 971

/-- The least significand that has all 53 binary digits. -/
def leastFull : Nat := Nat.pow 2 52

def zero : Binary64 := ⟨false, 0, leastExponent⟩

instance : Inhabited Binary64 := ⟨zero⟩

/-- A quotient with a power of two as a factor, as numerator and denominator. -/
def scale (num den : Nat) (exponent : Int) : Nat × Nat :=
  if 0 ≤ exponent then (num * Nat.pow 2 exponent.toNat, den)
  else (num, den * Nat.pow 2 (-exponent).toNat)

/-- The exponent at which a positive quotient has a significand of 53 digits, or the
least exponent when that is greater. -/
def exponentFor (num den : Nat) : Int :=
  let guess : Int := (Nat.log2 num : Int) - (Nat.log2 den : Int) - 52
  let scaled := scale num den (-guess)
  let exponent := if scaled.1 / scaled.2 < leastFull then guess - 1 else guess
  max exponent leastExponent

/-- The number nearest to `± num / den * 2 ^ exponent`, if there is one in range. -/
def round? (negative : Bool) (num den : Nat) (exponent : Int) : Option Binary64 :=
  let (num, den) := scale num den exponent
  if num = 0 then some ⟨negative, 0, leastExponent⟩
  else
    let exponent := exponentFor num den
    let scaled := scale num den (-exponent)
    let significand := roundDiv scaled.1 scaled.2
    let rounded : Binary64 :=
      if significand = 2 * leastFull then ⟨negative, leastFull, exponent + 1⟩
      else ⟨negative, significand, exponent⟩
    if greatestExponent < rounded.exponent then none else some rounded

def ofNat? (n : Nat) : Option Binary64 := round? false n 1 0

def ofInt? (n : Int) : Option Binary64 := round? (n < 0) n.natAbs 1 0

def neg (x : Binary64) : Binary64 := { x with negative := !x.negative }

def abs (x : Binary64) : Binary64 := { x with negative := false }

def isZero (x : Binary64) : Bool := x.significand == 0

def mul? (x y : Binary64) : Option Binary64 :=
  round? (x.negative != y.negative) (x.significand * y.significand) 1
    (x.exponent + y.exponent)

/-- The quotient; there is none by zero. -/
def div? (x y : Binary64) : Option Binary64 :=
  if y.isZero then none
  else
    round? (x.negative != y.negative) x.significand y.significand
      (x.exponent - y.exponent)

/-- The power of ten, if it is in range. -/
def pow10? (n : Nat) : Option Binary64 :=
  if 308 < n then none else round? false (Nat.pow 10 n) 1 0

/-- The value is below zero; a zero with a minus sign is not. -/
def isNegative (x : Binary64) : Bool := x.negative && !x.isZero

/-- The absolute value as a fraction. -/
def magnitude (x : Binary64) : Nat × Nat := scale x.significand 1 x.exponent

/-- The 64 bits of the interchange format: sign, biased exponent, fraction. No result of the program
is told by its bits; they tell two numbers apart that are printed alike. -/
def toBits (x : Binary64) : UInt64 :=
  let sign := if x.negative then Nat.pow 2 63 else 0
  let rest :=
    if x.significand < leastFull then x.significand
    else (x.exponent - leastExponent + 1).toNat * leastFull + (x.significand - leastFull)
  UInt64.ofNat (sign + rest)

end Binary64

end ChunkPrune
