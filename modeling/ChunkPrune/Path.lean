import ChunkPrune.Text.Affix

/-!
# Paths

A path is its text. The functions of this module read only the text: they join,
clean and compare paths without asking what is on disk. Two paths name the same
place lexically when they have the same components.
-/

namespace ChunkPrune

structure Path where
  text : String
  deriving DecidableEq, Repr, Inhabited

namespace Path

inductive Component where
  | root
  | here
  | up
  | name (text : String)
  deriving DecidableEq, Repr

def isAbsolute (path : Path) : Bool := Text.startsWith path.text "/"

/-- The texts between the slashes. -/
def segments (path : Path) : List String :=
  (path.text.toList.splitOn '/').map String.ofList

/-- The texts between the slashes, without the slash at the start. -/
def body (path : Path) : List String :=
  if path.isAbsolute then path.segments.drop 1 else path.segments

/-- The text stays where it is: it is empty or a single point. -/
def isIdle (segment : String) : Bool := segment == "" || segment == "."

/-- The step that a text stands for, if it is one. -/
def stepOf? (segment : String) : Option Component :=
  if isIdle segment then none
  else if segment = ".." then some .up
  else some (.name segment)

/-- The steps of a path. A point counts only at the start of a relative path. -/
def components (path : Path) : List Component :=
  let steps := path.body.filterMap stepOf?
  if path.isAbsolute then .root :: steps
  else if path.body.head? = some "." then .here :: steps
  else steps

def Component.text : Component → String
  | .root => ""
  | .here => "."
  | .up => ".."
  | .name text => text

def slashed (segments : List String) : String := "/".intercalate segments

/-- The path with the given steps; without steps it is a point. -/
def ofComponents : List Component → Path
  | [] => ⟨"."⟩
  | .root :: rest => ⟨"/" ++ slashed (rest.map Component.text)⟩
  | steps => ⟨slashed (steps.map Component.text)⟩

/-- One more step on a clean path, of which the last step stands first. -/
def pushClean (steps : List Component) : Component → List Component
  | .here => steps
  | .up =>
    match steps with
    | .root :: _ => steps
    | .name _ :: rest => rest
    | _ => .up :: steps
  | step => step :: steps

/-- The shortest path with the same lexical meaning: no points, and steps upwards
only at the start of a relative path. -/
def clean (path : Path) : Path :=
  ofComponents (path.components.foldl pushClean []).reverse

/-- The second path seen from the first one; an absolute one stays as it is. -/
def join (base path : Path) : Path :=
  if path.isAbsolute then path
  else if base.text = "" || Text.endsWith base.text "/" then ⟨base.text ++ path.text⟩
  else ⟨base.text ++ "/" ++ path.text⟩

/-- The steps of the first path are the first steps of the second. -/
def isUnder (path base : Path) : Bool := base.components.isPrefixOf path.components

def sameSteps (path other : Path) : Bool := path.components == other.components

/-- The path with a text after its last character. -/
def append (path : Path) (suffix : String) : Path := ⟨path.text ++ suffix⟩

/-- The path without its last step; a root and an empty path have no such path. -/
def parent? (path : Path) : Option Path :=
  let (start, rest) :=
    if !path.isAbsolute && path.body.head? == some "." then (["."], path.body.drop 1)
    else ([], path.body)
  match rest.reverse.dropWhile isIdle with
  | _ :: before =>
    let kept := start ++ (before.dropWhile isIdle).reverse
    some ⟨(if path.isAbsolute then "/" else "") ++ slashed kept⟩
  | [] => if start.isEmpty then none else some ⟨""⟩

/-! ## Order -/

/-- A number for each kind of step: a root comes first, a name last. -/
def Component.rank : Component → Nat
  | .root => 0
  | .here => 1
  | .up => 2
  | .name _ => 3

def Component.le : Component → Component → Bool
  | .name a, .name b => a ≤ b
  | a, b => a.rank ≤ b.rank

/-- The order by the first step that differs; the start of a path comes before it. -/
def leSteps : List Component → List Component → Bool
  | [], _ => true
  | _ :: _, [] => false
  | a :: as, b :: bs => if a = b then leSteps as bs else a.le b

def le (path other : Path) : Bool := leSteps path.components other.components

end Path

end ChunkPrune
