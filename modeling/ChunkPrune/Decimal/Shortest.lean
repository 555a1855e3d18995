import ChunkPrune.Binary64

/-!
# The shortest decimal of a double

Of all decimals that round to a given number, one with the fewest digits is chosen,
and of those the nearest to the number; of two equally near ones the even one. All
comparisons are between naturals: the number and the ends of the interval that
rounds to it stand over one common denominator.
-/

namespace ChunkPrune

/-- The decimal `digits * 10 ^ exponent`. -/
structure Decimal where
  digits : Nat
  exponent : Int
  deriving DecidableEq, Repr

namespace Decimal

/-- A positive number and the interval of reals that round to it, as numerators over
a common denominator. The ends belong to the interval when `closed` says so. -/
structure Interval where
  value : Nat
  lower : Nat
  upper : Nat
  den : Nat
  closed : Bool
  deriving Repr

/-- The interval around a positive number. Its lower half is half as long at a power
of two, where the numbers below stand twice as close. -/
def Interval.ofBinary64 (x : Binary64) : Interval :=
  let lowerStep :=
    if x.significand = Binary64.leastFull ∧ Binary64.leastExponent < x.exponent then 1 else 2
  let value := Binary64.scale (4 * x.significand) 4 x.exponent
  let lower := Binary64.scale (4 * x.significand - lowerStep) 4 x.exponent
  let upper := Binary64.scale (4 * x.significand + 2) 4 x.exponent
  ⟨value.1, lower.1, upper.1, value.2, x.significand % 2 = 0⟩

/-- The fraction `num / den` lies in the interval. -/
def Interval.contains (i : Interval) (num den : Nat) : Bool :=
  if i.closed then i.lower * den ≤ num * i.den && num * i.den ≤ i.upper * den
  else i.lower * den < num * i.den && num * i.den < i.upper * den

/-- The power of ten of the first digit of a positive fraction. -/
def leadingExponent (num den : Nat) : Int :=
  let guess : Int := (Nat.toDigits 10 num).length - (Nat.toDigits 10 den).length
  let reached :=
    if 0 ≤ guess then den * Nat.pow 10 guess.toNat ≤ num
    else den ≤ num * Nat.pow 10 (-guess).toNat
  if reached then guess else guess - 1

def fraction (d : Decimal) : Nat × Nat :=
  if 0 ≤ d.exponent then (d.digits * Nat.pow 10 d.exponent.toNat, 1)
  else (d.digits, Nat.pow 10 (-d.exponent).toNat)

/-- The neighbour below the number on the grid of the multiples of `10 ^ exponent`. -/
def Interval.below (i : Interval) (exponent : Int) : Nat :=
  if 0 ≤ exponent then i.value / (i.den * Nat.pow 10 exponent.toNat)
  else i.value * Nat.pow 10 (-exponent).toNat / i.den

/-- A distance between a decimal and the number, as a numerator over the product of
their denominators. -/
def Interval.distance (i : Interval) (d : Decimal) : Nat :=
  let (num, den) := d.fraction
  let a := num * i.den
  let b := i.value * den
  if a < b then b - a else a - b

/-- The nearest decimal of the interval on one grid, if there is any. -/
def Interval.onGrid? (i : Interval) (exponent : Int) : Option Decimal :=
  let low : Decimal := ⟨i.below exponent, exponent⟩
  let high : Decimal := ⟨i.below exponent + 1, exponent⟩
  let inside (d : Decimal) : Bool := i.contains d.fraction.1 d.fraction.2
  match inside low, inside high with
  | false, false => none
  | true, false => some low
  | false, true => some high
  | true, true =>
    if i.distance low < i.distance high then some low
    else if i.distance high < i.distance low then some high
    else if low.digits % 2 = 0 then some low
    else some high

/-- Zeros at the end go into the exponent. -/
def strip (fuel : Nat) (d : Decimal) : Decimal :=
  match fuel with
  | 0 => d
  | fuel + 1 =>
    if d.digits ≠ 0 ∧ d.digits % 10 = 0 then strip fuel ⟨d.digits / 10, d.exponent + 1⟩
    else d

/-- A decimal with the fewest digits that rounds to a positive number. Seventeen
digits are always enough. -/
def shortest (x : Binary64) : Decimal :=
  let i := Interval.ofBinary64 x
  let lead := leadingExponent i.value i.den
  let found := (List.range 17).findSome? fun (n : Nat) => i.onGrid? (lead - n)
  (found.getD ⟨i.below (lead - 16), lead - 16⟩).strip 17

end Decimal

end ChunkPrune
