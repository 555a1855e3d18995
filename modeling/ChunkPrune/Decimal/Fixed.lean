import ChunkPrune.Binary64

/-!
# Decimals with a fixed number of places

The exact value of a double is rounded once, a half to the even neighbour. The minus
sign of a negative number stays also when all digits are zero.
-/

namespace ChunkPrune.Decimal

/-- Zeros before the digits of a number, up to a given width. -/
def padDigits (width n : Nat) : List Char :=
  let digits := Nat.toDigits 10 n
  List.replicate (width - digits.length) '0' ++ digits

/-- A number with the given count of places after the point. -/
def fixed (places : Nat) (x : Binary64) : String :=
  let (num, den) := x.magnitude
  let unit := Nat.pow 10 places
  let scaled := roundDiv (num * unit) den
  let whole := Nat.toDigits 10 (scaled / unit)
  let fraction := if places = 0 then [] else '.' :: padDigits places (scaled % unit)
  String.ofList ((if x.negative then ['-'] else []) ++ whole ++ fraction)

end ChunkPrune.Decimal
