import ChunkPrune.SourceText.Token

/-!
# JavaScript modules

A test whether a text is a module of plain JavaScript: declarations, functions,
conditions, blocks, expressions and exports of names. A statement ends with a
semicolon, at the end of its line, or before a closing brace.

Each recogniser takes the tokens from its place on and gives back those after it. Fuel
bounds the depth of calls; every few calls use up a token.
-/

namespace ChunkPrune.SourceText

/-- Words that are no names of variables. -/
def reservedWords : List String :=
  ["break", "case", "catch", "class", "const", "continue", "debugger", "default", "delete",
    "do", "else", "enum", "export", "extends", "false", "finally", "for", "function", "if",
    "import", "in", "instanceof", "new", "null", "return", "super", "switch", "this", "throw",
    "true", "try", "typeof", "var", "void", "while", "with", "let", "static", "implements",
    "interface", "package", "private", "protected", "public", "yield", "await"]

def isReserved (name : String) : Bool := reservedWords.contains name

def literalWords : List String := ["this", "null", "true", "false"]

def prefixMarks : List String := ["!", "~", "+", "-"]

def prefixWords : List String := ["typeof", "void", "delete"]

def binaryMarks : List String :=
  ["+", "-", "*", "/", "%", "**", "<<", ">>", ">>>", "<", ">", "<=", ">=", "==", "!=", "===",
    "!==", "&", "^", "|", "&&", "||", "??"]

def binaryWords : List String := ["in", "instanceof"]

def assignmentMarks : List String :=
  ["=", "+=", "-=", "*=", "/=", "%=", "**=", "<<=", ">>=", ">>>=", "&=", "^=", "|=", "&&=",
    "||=", "??="]

/-- The tokens after a given mark. -/
def expect (mark : String) : List Token → Option (List Token)
  | ⟨.mark text, _⟩ :: rest => if text = mark then some rest else none
  | _ => none

/-- The tokens after the name of a variable. -/
def bindingName : List Token → Option (List Token)
  | ⟨.word name, _⟩ :: rest => if isReserved name then none else some rest
  | _ => none

def semicolon : List Token → Option (List Token)
  | [] => some []
  | ⟨.mark ";", _⟩ :: rest => some rest
  | ⟨.mark "\x7d", newline⟩ :: rest => some (⟨.mark "\x7d", newline⟩ :: rest)
  | token :: rest => if token.afterNewline then some (token :: rest) else none

/-- An expression that was recognised: whether it may be assigned to, and the tokens
after it. -/
abbrev Recognised := Option (Bool × List Token)

mutual

def expression : Nat → List Token → Recognised
  | 0, _ => none
  | fuel + 1, tokens =>
    match assignment fuel tokens with
    | some (_, ⟨.mark ",", _⟩ :: rest) =>
      (expression fuel rest).map fun (_, rest) => (false, rest)
    | result => result

/-- A condition, or an assignment to something that may be assigned to. -/
def assignment : Nat → List Token → Recognised
  | 0, _ => none
  | fuel + 1, tokens =>
    match conditional fuel tokens with
    | some (target, ⟨.mark mark, newline⟩ :: rest) =>
      if assignmentMarks.contains mark then
        if target then (assignment fuel rest).map fun (_, rest) => (false, rest) else none
      else some (target, ⟨.mark mark, newline⟩ :: rest)
    | result => result

def conditional : Nat → List Token → Recognised
  | 0, _ => none
  | fuel + 1, tokens =>
    match binary fuel tokens with
    | some (_, ⟨.mark "?", _⟩ :: rest) => do
      let (_, rest) ← assignment fuel rest
      let rest ← expect ":" rest
      let (_, rest) ← assignment fuel rest
      some (false, rest)
    | result => result

/-- Operands with operators between them; which of them binds closer does not matter
here. -/
def binary : Nat → List Token → Recognised
  | 0, _ => none
  | fuel + 1, tokens =>
    match unary fuel tokens with
    | some (target, token :: rest) =>
      let isOperator :=
        match token.lexeme with
        | .mark mark => binaryMarks.contains mark
        | .word word => binaryWords.contains word
        | _ => false
      if isOperator then (binary fuel rest).map fun (_, rest) => (false, rest)
      else some (target, token :: rest)
    | result => result

def unary : Nat → List Token → Recognised
  | 0, _ => none
  | fuel + 1, tokens =>
    match tokens with
    | ⟨.mark mark, newline⟩ :: rest =>
      if prefixMarks.contains mark then
        (unary fuel rest).map fun (_, rest) => (false, rest)
      else if mark = "++" ∨ mark = "--" then
        match unary fuel rest with
        | some (true, rest) => some (false, rest)
        | _ => none
      else operand fuel (⟨.mark mark, newline⟩ :: rest)
    | ⟨.word word, newline⟩ :: rest =>
      if prefixWords.contains word then
        (unary fuel rest).map fun (_, rest) => (false, rest)
      else operand fuel (⟨.word word, newline⟩ :: rest)
    | tokens => operand fuel tokens

/-- A primary expression with what is called or selected on it. -/
def operand : Nat → List Token → Recognised
  | 0, _ => none
  | fuel + 1, tokens => do
    let (target, rest) ← primary fuel tokens
    let (target, rest) ← members fuel target rest
    match rest with
    | ⟨.mark mark, newline⟩ :: after =>
      if (mark = "++" ∨ mark = "--") ∧ newline = false then
        if target then some (false, after) else none
      else some (target, rest)
    | rest => some (target, rest)

/-- Members and calls after an expression. -/
def members : Nat → Bool → List Token → Recognised
  | 0, _, _ => none
  | fuel + 1, target, tokens =>
    match tokens with
    | ⟨.mark ".", _⟩ :: ⟨.word _, _⟩ :: rest => members fuel true rest
    | ⟨.mark ".", _⟩ :: _ => none
    | ⟨.mark "?.", _⟩ :: ⟨.word _, _⟩ :: rest =>
      (members fuel false rest).map fun (_, rest) => (false, rest)
    | ⟨.mark "?.", _⟩ :: _ => none
    | ⟨.mark "[", _⟩ :: rest => do
      let (_, rest) ← expression fuel rest
      let rest ← expect "]" rest
      members fuel true rest
    | ⟨.mark "(", _⟩ :: rest => do
      let rest ← arguments fuel rest
      members fuel false rest
    | tokens => some (target, tokens)

def primary : Nat → List Token → Recognised
  | 0, _ => none
  | fuel + 1, tokens =>
    match tokens with
    | ⟨.number, _⟩ :: rest => some (false, rest)
    | ⟨.string, _⟩ :: rest => some (false, rest)
    | ⟨.mark "(", _⟩ :: rest => do
      let (target, rest) ← expression fuel rest
      let rest ← expect ")" rest
      some (target, rest)
    | ⟨.mark "[", _⟩ :: rest => (items fuel rest).map fun rest => (true, rest)
    | ⟨.mark "\x7b", _⟩ :: rest => (properties fuel rest).map fun rest => (true, rest)
    | ⟨.word "function", _⟩ :: ⟨.word name, _⟩ :: rest =>
      if isReserved name then none
      else (functionRest fuel rest).map fun rest => (false, rest)
    | ⟨.word "function", _⟩ :: rest => (functionRest fuel rest).map fun rest => (false, rest)
    | ⟨.word "new", _⟩ :: rest => do
      let (_, rest) ← primary fuel rest
      let (_, rest) ← members fuel false rest
      some (false, rest)
    | ⟨.word word, _⟩ :: rest =>
      if literalWords.contains word then some (false, rest)
      else if isReserved word then none
      else some (true, rest)
    | _ => none

def arguments : Nat → List Token → Option (List Token)
  | 0, _ => none
  | fuel + 1, tokens =>
    match tokens with
    | ⟨.mark ")", _⟩ :: rest => some rest
    | ⟨.mark "...", _⟩ :: rest => argumentRest fuel rest
    | tokens => argumentRest fuel tokens

def argumentRest : Nat → List Token → Option (List Token)
  | 0, _ => none
  | fuel + 1, tokens =>
    match assignment fuel tokens with
    | some (_, ⟨.mark ",", _⟩ :: rest) => arguments fuel rest
    | some (_, ⟨.mark ")", _⟩ :: rest) => some rest
    | _ => none

def items : Nat → List Token → Option (List Token)
  | 0, _ => none
  | fuel + 1, tokens =>
    match tokens with
    | ⟨.mark "]", _⟩ :: rest => some rest
    | ⟨.mark ",", _⟩ :: rest => items fuel rest
    | ⟨.mark "...", _⟩ :: rest => itemRest fuel rest
    | tokens => itemRest fuel tokens

def itemRest : Nat → List Token → Option (List Token)
  | 0, _ => none
  | fuel + 1, tokens =>
    match assignment fuel tokens with
    | some (_, ⟨.mark ",", _⟩ :: rest) => items fuel rest
    | some (_, ⟨.mark "]", _⟩ :: rest) => some rest
    | _ => none

/-- The properties of an object after its opening brace. -/
def properties : Nat → List Token → Option (List Token)
  | 0, _ => none
  | fuel + 1, tokens =>
    match tokens with
    | ⟨.mark "\x7d", _⟩ :: rest => some rest
    | ⟨.mark "...", _⟩ :: rest => do
      let (_, rest) ← assignment fuel rest
      propertyEnd fuel rest
    | ⟨.word _, _⟩ :: ⟨.mark ":", _⟩ :: rest => do
      let (_, rest) ← assignment fuel rest
      propertyEnd fuel rest
    | ⟨.word _, _⟩ :: ⟨.mark "(", newline⟩ :: rest => do
      let rest ← functionRest fuel (⟨.mark "(", newline⟩ :: rest)
      propertyEnd fuel rest
    | ⟨.word accessor, _⟩ :: ⟨.word _, _⟩ :: rest =>
      if accessor = "get" ∨ accessor = "set" then do
        let rest ← functionRest fuel rest
        propertyEnd fuel rest
      else none
    | ⟨.word name, _⟩ :: rest => if isReserved name then none else propertyEnd fuel rest
    | ⟨.mark "[", _⟩ :: rest => do
      let (_, rest) ← assignment fuel rest
      let rest ← expect "]" rest
      propertyValue fuel rest
    | ⟨.string, _⟩ :: rest => propertyValue fuel rest
    | ⟨.number, _⟩ :: rest => propertyValue fuel rest
    | _ => none

/-- The value of a property whose name is no word, and the properties after it. -/
def propertyValue : Nat → List Token → Option (List Token)
  | 0, _ => none
  | fuel + 1, tokens =>
    match tokens with
    | ⟨.mark ":", _⟩ :: rest => do
      let (_, rest) ← assignment fuel rest
      propertyEnd fuel rest
    | tokens => do
      let rest ← functionRest fuel tokens
      propertyEnd fuel rest

def propertyEnd : Nat → List Token → Option (List Token)
  | 0, _ => none
  | fuel + 1, tokens =>
    match tokens with
    | ⟨.mark ",", _⟩ :: rest => properties fuel rest
    | ⟨.mark "\x7d", _⟩ :: rest => some rest
    | _ => none

def functionRest : Nat → List Token → Option (List Token)
  | 0, _ => none
  | fuel + 1, tokens => do
    let rest ← expect "(" tokens
    let rest ← parameters fuel rest
    let rest ← expect "\x7b" rest
    block fuel true rest

/-- The parameters of a function after its opening parenthesis. -/
def parameters : Nat → List Token → Option (List Token)
  | 0, _ => none
  | fuel + 1, tokens =>
    match tokens with
    | ⟨.mark ")", _⟩ :: rest => some rest
    | ⟨.mark "...", _⟩ :: rest => do expect ")" (← bindingName rest)
    | tokens => do
      let rest ← bindingName tokens
      let rest ← initializer fuel rest
      match rest with
      | ⟨.mark ",", _⟩ :: rest => parameters fuel rest
      | rest => expect ")" rest

def initializer : Nat → List Token → Option (List Token)
  | 0, _ => none
  | fuel + 1, tokens =>
    match tokens with
    | ⟨.mark "=", _⟩ :: rest => (assignment fuel rest).map (·.2)
    | tokens => some tokens

/-- The statements of a block after its opening brace. -/
def block : Nat → Bool → List Token → Option (List Token)
  | 0, _, _ => none
  | fuel + 1, inFunction, tokens =>
    match tokens with
    | ⟨.mark "\x7d", _⟩ :: rest => some rest
    | [] => none
    | tokens => do
      let rest ← declaration fuel inFunction tokens
      block fuel inFunction rest

def declaration : Nat → Bool → List Token → Option (List Token)
  | 0, _, _ => none
  | fuel + 1, inFunction, tokens =>
    match tokens with
    | ⟨.word "let", _⟩ :: rest => do semicolon (← declarators fuel false rest)
    | ⟨.word "const", _⟩ :: rest => do semicolon (← declarators fuel true rest)
    | ⟨.word "function", _⟩ :: rest => do functionRest fuel (← bindingName rest)
    | tokens => statement fuel inFunction tokens

/-- Names that are declared; a constant has a value from the start. -/
def declarators : Nat → Bool → List Token → Option (List Token)
  | 0, _, _ => none
  | fuel + 1, constant, tokens => do
    let rest ← bindingName tokens
    let value ← initializer fuel rest
    if constant ∧ value.length = rest.length then none
    else
      match value with
      | ⟨.mark ",", _⟩ :: rest => declarators fuel constant rest
      | rest => some rest

/-- A statement that declares nothing but variables. It may have labels. -/
def statement : Nat → Bool → List Token → Option (List Token)
  | 0, _, _ => none
  | fuel + 1, inFunction, tokens =>
    match tokens with
    | ⟨.mark ";", _⟩ :: rest => some rest
    | ⟨.mark "\x7b", _⟩ :: rest => block fuel inFunction rest
    | ⟨.word "var", _⟩ :: rest => do semicolon (← declarators fuel false rest)
    | ⟨.word "function", _⟩ :: _ => none
    | ⟨.word "if", _⟩ :: rest => do
      let rest ← expect "(" rest
      let (_, rest) ← expression fuel rest
      let rest ← expect ")" rest
      let rest ← statement fuel inFunction rest
      match rest with
      | ⟨.word "else", _⟩ :: rest => statement fuel inFunction rest
      | rest => some rest
    | ⟨.word "return", _⟩ :: rest =>
      if inFunction then
        match semicolon rest with
        | some rest => some rest
        | none => do
          let (_, rest) ← expression fuel rest
          semicolon rest
      else none
    | ⟨.word name, _⟩ :: ⟨.mark ":", _⟩ :: rest =>
      if isReserved name then none else statement fuel inFunction rest
    | tokens => do
      let (_, rest) ← expression fuel tokens
      semicolon rest

end

/-- The names of an export after the opening brace. The name of a variable may be
followed by the one it is exported under, which may be any word. -/
def exportNames : List Token → Option (List Token)
  | ⟨.mark "\x7d", _⟩ :: rest => some rest
  | ⟨.word name, _⟩ :: ⟨.mark "\x7d", _⟩ :: rest => if isReserved name then none else some rest
  | ⟨.word name, _⟩ :: ⟨.mark ",", _⟩ :: rest =>
    if isReserved name then none else exportNames rest
  | ⟨.word name, _⟩ :: ⟨.word "as", _⟩ :: ⟨.word _, _⟩ :: ⟨.mark "\x7d", _⟩ :: rest =>
    if isReserved name then none else some rest
  | ⟨.word name, _⟩ :: ⟨.word "as", _⟩ :: ⟨.word _, _⟩ :: ⟨.mark ",", _⟩ :: rest =>
    if isReserved name then none else exportNames rest
  | _ => none

/-- One part of a module: an export, a declaration or a statement. -/
def modulePart (fuel : Nat) : List Token → Option (List Token)
  | ⟨.word "export", _⟩ :: ⟨.mark "\x7b", _⟩ :: rest => do semicolon (← exportNames rest)
  | ⟨.word "export", _⟩ :: ⟨.word "default", _⟩ :: rest => do
    let (_, rest) ← assignment fuel rest
    semicolon rest
  | ⟨.word "export", _⟩ :: ⟨.word word, newline⟩ :: rest =>
    if ["var", "let", "const", "function"].contains word then
      declaration fuel false (⟨.word word, newline⟩ :: rest)
    else none
  | tokens => declaration fuel false tokens

def moduleParts (depth : Nat) : Nat → List Token → Bool
  | _, [] => true
  | 0, _ => false
  | parts + 1, tokens =>
    match modulePart depth tokens with
    | some rest => moduleParts depth parts rest
    | none => false

def isModule (text : String) : Bool :=
  match scan text with
  | some tokens => moduleParts (16 * (tokens.length + 2)) tokens.length tokens
  | none => false

end ChunkPrune.SourceText
