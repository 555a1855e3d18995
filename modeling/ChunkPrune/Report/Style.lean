/-!
# Text styles

A styled text stands between a control sequence with the codes of its style and one
that ends all styles. Within the text the style is taken up again after each end.
-/

namespace ChunkPrune

/-- Whether control sequences are written. -/
abbrev Colored := Bool

/-- A style: its codes, with those of the face before that of the color. -/
structure Style where
  codes : List Nat
  deriving DecidableEq, Repr

namespace Style

def bold : Style := ⟨[1]⟩
def dimmed : Style := ⟨[2]⟩
def red : Style := ⟨[31]⟩
def green : Style := ⟨[32]⟩
def yellow : Style := ⟨[33]⟩
def blue : Style := ⟨[34]⟩
def cyan : Style := ⟨[36]⟩
def brightBlue : Style := ⟨[94]⟩
def boldGreen : Style := ⟨[1, 32]⟩
def boldYellow : Style := ⟨[1, 33]⟩
def boldBlue : Style := ⟨[1, 34]⟩
def boldCyan : Style := ⟨[1, 36]⟩

def sequence (codes : List Nat) : List Char :=
  '\x1b' :: '[' :: (";".intercalate (codes.map toString)).toList ++ ['m']

def reset : List Char := sequence [0]

/-- The style again after each end of styles within a text. -/
def resume (start : List Char) : List Char → List Char
  | '\x1b' :: '[' :: '0' :: 'm' :: rest => reset ++ start ++ resume start rest
  | c :: rest => c :: resume start rest
  | [] => []

/-- A text in a style. -/
def paint (style : Style) (colored : Colored) (text : String) : String :=
  if colored then
    let start := sequence style.codes
    String.ofList (start ++ resume start text.toList ++ reset)
  else text

end Style

end ChunkPrune
