/-!
# White space

The characters with the Unicode property `White_Space`, and trimming by them.
-/

namespace ChunkPrune.Text

/-- The character has the Unicode property `White_Space`. -/
def isBlank (c : Char) : Bool :=
  let n := c.toNat
  (0x9 ≤ n && n ≤ 0xD) || n == 0x20 || n == 0x85 || n == 0xA0 || n == 0x1680 ||
    (0x2000 ≤ n && n ≤ 0x200A) || n == 0x2028 || n == 0x2029 || n == 0x202F ||
    n == 0x205F || n == 0x3000

/-- The characters without white space at their start. -/
def trimStart (cs : List Char) : List Char := cs.dropWhile isBlank

/-- The characters without white space at their end. -/
def trimEnd (cs : List Char) : List Char := (cs.reverse.dropWhile isBlank).reverse

def trim (text : String) : String := String.ofList (trimEnd (trimStart text.toList))

theorem trim_toList (text : String) :
    (trim text).toList = trimEnd (trimStart text.toList) :=
  String.toList_ofList

end ChunkPrune.Text
