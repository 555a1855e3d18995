import ChunkPrune.Decimal.Fixed
import ChunkPrune.Summary
import ChunkPrune.Text.Thousands

/-!
# Figures in reports

How sizes, percentages and counts are written, on the console and in documents.
-/

namespace ChunkPrune.Figures

/-- A number of bytes in units of a power of 1024, before it is written. -/
def inUnits (bytes : Nat) (power : Nat) : Binary64 :=
  ((Binary64.ofNat? bytes).bind fun x =>
    (Binary64.ofNat? (Nat.pow 1024 power)).bind fun unit => x.div? unit).getD .zero

def megabytes (bytes : Nat) : String := Decimal.fixed 2 (inUnits bytes 2) ++ " MB"

def kilobytes (bytes : Nat) : String := Decimal.fixed 1 (inUnits bytes 1) ++ " KB"

def sizes (bytes : Nat) : String :=
  megabytes bytes ++ " (" ++ Text.thousands bytes ++ " bytes)"

def percent1 (x : Binary64) : String := Decimal.fixed 1 x ++ "%"

def percent2 (x : Binary64) : String := Decimal.fixed 2 x ++ "%"

/-- The length of a list that may be unknown. -/
def countOf (list : Option (List String)) : String :=
  match list with
  | some items => toString items.length
  | none => "unknown"

def line (text : String) : String := text ++ "\n"

end ChunkPrune.Figures
