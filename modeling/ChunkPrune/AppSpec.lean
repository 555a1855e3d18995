import ChunkPrune.Text.Blank
import ChunkPrune.Usage.Load

/-!
# Application specifications

An application is given as `NAME` or `NAME=DIR`. Blanks around both parts do not
count. Without a directory, the build output is expected below the root.
-/

namespace ChunkPrune

structure AppSpec where
  name : String
  outputDir : Option Path
  deriving DecidableEq, Repr

inductive AppSpecError where
  | missingName (spec : String)
  | missingDirectory (spec : String)
  deriving DecidableEq, Repr

def AppSpecError.message : AppSpecError → String
  | missingName spec => "missing application name in '" ++ spec ++ "'"
  | missingDirectory spec => "missing output directory in '" ++ spec ++ "'"

namespace AppSpec

/-- The directory of the build output in the directory of an application. -/
def defaultOutputDir : String := "dist"

/-- The applications to work on when none is given. -/
def defaults : List AppSpec := [⟨"host", none⟩, ⟨"remote", none⟩]

/-- Read a specification; the first equality sign ends the name. -/
def read (spec : String) : Except AppSpecError AppSpec :=
  match Text.splitFirst? spec '=' with
  | none =>
    let name := Text.trim spec
    if name = "" then .error (.missingName spec) else .ok ⟨name, none⟩
  | some (name, dir) =>
    let name := Text.trim name
    let dir := Text.trim dir
    if name = "" then .error (.missingName spec)
    else if dir = "" then .error (.missingDirectory spec)
    else .ok ⟨name, some ⟨dir⟩⟩

def render (spec : AppSpec) : String :=
  match spec.outputDir with
  | none => spec.name
  | some dir => spec.name ++ "=" ++ dir.text

/-- The application with its output directory seen from the root. -/
def application (root : Path) (spec : AppSpec) : Application :=
  match spec.outputDir with
  | some dir => ⟨spec.name, root.join dir⟩
  | none => ⟨spec.name, (root.join ⟨spec.name⟩).join ⟨defaultOutputDir⟩⟩

end AppSpec

end ChunkPrune
