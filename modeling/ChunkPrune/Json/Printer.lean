import ChunkPrune.Decimal.Shortest
import ChunkPrune.Json.Basic

/-!
# JSON texts of values

The compact form has no blanks. The other form puts each item and each member on a
line of its own, two blanks deeper for each array or object that is open. Both write
members in the order in which the object has them.
-/

namespace ChunkPrune.Json

/-! ## Numbers -/

/-- Doubles are written with a point while the exponent of their first digit lies in
this range, and otherwise with an exponent that has a sign. -/
def positionalExponents (exponent : Int) : Bool := -5 ≤ exponent && exponent ≤ 15

/-- A decimal with a point: digits after it as far as needed, and at least one. -/
def positional (digits : List Char) (lead : Int) : List Char :=
  if lead < 0 then
    '0' :: '.' :: List.replicate (-lead - 1).toNat '0' ++ digits
  else
    let count := lead.toNat + 1
    let whole := digits.take count ++ List.replicate (count - digits.length) '0'
    match digits.drop count with
    | [] => whole ++ ['.', '0']
    | fraction => whole ++ '.' :: fraction

/-- A decimal with an exponent: one digit before the point, and no point when no
digit follows. -/
def scientific (digits : List Char) (lead : Int) : List Char :=
  let sign := if lead < 0 then '-' else '+'
  let significand :=
    match digits with
    | [] => ['0']
    | [d] => [d]
    | d :: rest => d :: '.' :: rest
  significand ++ 'e' :: sign :: Nat.toDigits 10 lead.natAbs

/-- The text of a double, with the fewest digits that are read back as it. -/
def renderDouble (x : Binary64) : List Char :=
  let sign := if x.negative then ['-'] else []
  if x.isZero then sign ++ ['0', '.', '0']
  else
    let decimal := Decimal.shortest x
    let digits := Nat.toDigits 10 decimal.digits
    let lead := decimal.exponent + (digits.length : Int) - 1
    sign ++ if positionalExponents lead then positional digits lead else scientific digits lead

def Number.render : Number → List Char
  | .integer value =>
    (if value < 0 then ['-'] else []) ++ Nat.toDigits 10 value.natAbs
  | .double value => renderDouble value

/-! ## Strings -/

def hexDigit (n : Nat) : Char := Nat.digitChar n

/-- A character as it stands between quotation marks. -/
def renderChar (c : Char) : List Char :=
  if c = '"' then ['\\', '"']
  else if c = '\\' then ['\\', '\\']
  else if c = '\x08' then ['\\', 'b']
  else if c = '\t' then ['\\', 't']
  else if c = '\n' then ['\\', 'n']
  else if c = '\x0c' then ['\\', 'f']
  else if c = '\r' then ['\\', 'r']
  else if c.toNat < 0x20 then
    ['\\', 'u', '0', '0', hexDigit (c.toNat / 16), hexDigit (c.toNat % 16)]
  else [c]

def renderString (text : String) : List Char :=
  '"' :: text.toList.flatMap renderChar ++ ['"']

/-! ## Values -/

mutual

def render : Json → List Char
  | null => ['n', 'u', 'l', 'l']
  | bool true => ['t', 'r', 'u', 'e']
  | bool false => ['f', 'a', 'l', 's', 'e']
  | number value => value.render
  | string value => renderString value
  | array items => '[' :: renderItems items
  | object members => '{' :: renderMembers members

def renderItems : List Json → List Char
  | [] => [']']
  | [item] => render item ++ [']']
  | item :: rest => render item ++ ',' :: renderItems rest

def renderMembers : List (String × Json) → List Char
  | [] => ['}']
  | [(key, value)] => renderString key ++ ':' :: render value ++ ['}']
  | (key, value) :: rest =>
    renderString key ++ ':' :: render value ++ ',' :: renderMembers rest

end

def newline (depth : Nat) : List Char := '\n' :: List.replicate (2 * depth) ' '

mutual

/-- The form with one item or member a line. -/
def renderLines (depth : Nat) : Json → List Char
  | null => ['n', 'u', 'l', 'l']
  | bool true => ['t', 'r', 'u', 'e']
  | bool false => ['f', 'a', 'l', 's', 'e']
  | number value => value.render
  | string value => renderString value
  | array [] => ['[', ']']
  | array items => '[' :: renderItemLines depth items
  | object [] => ['{', '}']
  | object members => '{' :: renderMemberLines depth members

/-- The items of an array on lines of their own, and its closing bracket. -/
def renderItemLines (depth : Nat) : List Json → List Char
  | [] => newline depth ++ [']']
  | [item] => newline (depth + 1) ++ renderLines (depth + 1) item ++ newline depth ++ [']']
  | item :: rest =>
    newline (depth + 1) ++ renderLines (depth + 1) item ++ ',' :: renderItemLines depth rest

/-- The members of an object on lines of their own, and its closing brace. -/
def renderMemberLines (depth : Nat) : List (String × Json) → List Char
  | [] => newline depth ++ ['}']
  | [(key, value)] =>
    newline (depth + 1) ++ renderString key ++ ':' :: ' ' ::
      renderLines (depth + 1) value ++ newline depth ++ ['}']
  | (key, value) :: rest =>
    newline (depth + 1) ++ renderString key ++ ':' :: ' ' ::
      renderLines (depth + 1) value ++ ',' :: renderMemberLines depth rest

end

def compact (json : Json) : String := String.ofList json.render

/-- The text of a value with one item or member a line. -/
def pretty (json : Json) : String := String.ofList (json.renderLines 0)

end ChunkPrune.Json
