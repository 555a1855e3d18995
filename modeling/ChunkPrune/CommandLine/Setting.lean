import ChunkPrune.AppSpec

/-!
# Options and settings

An option is a name on the command line. A setting is an option with the value that
was given for it.
-/

namespace ChunkPrune

inductive UsageError where
  | unknownArgument
  | missingRequired
  | invalidValue
  | valueValidation
  | argumentConflict
  | tooManyValues
  | helpRequested
  | missingCommand
  | unknownCommand
  deriving DecidableEq, Repr

namespace UsageError

def message : UsageError → String
  | unknownArgument => "an argument is not known"
  | missingRequired => "an option is missing that is required"
  | invalidValue => "the value of an option is missing or empty"
  | valueValidation => "the value of an option is not valid"
  | argumentConflict => "an option stands twice that may stand only once"
  | tooManyValues => "an option has a value and takes none"
  | helpRequested => "help was asked for"
  | missingCommand => "a command is missing"
  | unknownCommand => "the command is not known"

end UsageError

inductive Switch where
  | root
  | app
  | usageFile
  | engine
  | engineArg
  | report
  | reportPath
  | keptSample
  | noValidate
  | jobs
  | output
  | help
  deriving DecidableEq, Repr

namespace Switch

def long : Switch → String
  | root => "root"
  | app => "app"
  | usageFile => "usage-file"
  | engine => "engine"
  | engineArg => "engine-arg"
  | report => "report"
  | reportPath => "report-path"
  | keptSample => "kept-sample"
  | noValidate => "no-validate"
  | jobs => "jobs"
  | output => "output"
  | help => "help"

def short? : Switch → Option Char
  | report => some 'r'
  | output => some 'o'
  | help => some 'h'
  | _ => none

def takesValue : Switch → Bool
  | report => false
  | keptSample => false
  | noValidate => false
  | help => false
  | _ => true

def isRepeatable : Switch → Bool
  | app => true
  | engineArg => true
  | _ => false

/-- The next argument is the value, even if it looks like an option. -/
def takesAnyValue : Switch → Bool
  | engineArg => true
  | _ => false

/-- The options that say where the applications are. -/
def ofWorkspace : List Switch := [root, app, usageFile, help]

def ofOptimize : List Switch :=
  ofWorkspace ++ [engine, engineArg, report, reportPath, keptSample, noValidate, jobs]

def ofMerge : List Switch := ofWorkspace ++ [output]

def ofRestore : List Switch := ofWorkspace

end Switch

/-- An option with its value. -/
inductive Setting where
  | root (path : Path)
  | app (spec : AppSpec)
  | usageFile (name : String)
  | engine (program : String)
  | engineArg (argument : String)
  | report
  | reportPath (path : Path)
  | keptSample
  | noValidate
  | jobs (count : Nat)
  | output (path : Path)
  deriving DecidableEq, Repr

namespace Setting

def switch : Setting → Switch
  | root _ => .root
  | app _ => .app
  | usageFile _ => .usageFile
  | engine _ => .engine
  | engineArg _ => .engineArg
  | report => .report
  | reportPath _ => .reportPath
  | keptSample => .keptSample
  | noValidate => .noValidate
  | jobs _ => .jobs
  | output _ => .output

def value? : Setting → Option String
  | root path => some path.text
  | app spec => some spec.render
  | usageFile name => some name
  | engine program => some program
  | engineArg argument => some argument
  | report => none
  | reportPath path => some path.text
  | keptSample => none
  | noValidate => none
  | jobs count => some (toString count)
  | output path => some path.text

def render (setting : Setting) : String :=
  match setting.value? with
  | some value => "--" ++ setting.switch.long ++ "=" ++ value
  | none => "--" ++ setting.switch.long

/-- A path may not be empty. -/
def readPath (value : String) : Except UsageError Path :=
  if value = "" then .error .invalidValue else .ok ⟨value⟩

/-- A whole number of 64 bits, which may have a plus sign and zeros before it. -/
def readCount (value : String) : Except UsageError Nat :=
  let digits : List Char :=
    match value.toList with
    | '+' :: rest => rest
    | cs => cs
  let count : Nat := digits.foldl (fun n c => 10 * n + (c.toNat - '0'.toNat)) 0
  if digits ≠ [] ∧ digits.all Char.isDigit ∧ count < Nat.pow 2 64 then .ok count
  else .error .valueValidation

/-- The setting of an option for a value; a plain switch has none. -/
def ofValue : Switch → String → Except UsageError Setting
  | .root, value => (readPath value).map root
  | .app, value => ((AppSpec.read value).mapError fun _ => .valueValidation).map app
  | .usageFile, value => .ok (usageFile value)
  | .engine, value => .ok (engine value)
  | .engineArg, value => .ok (engineArg value)
  | .reportPath, value => (readPath value).map reportPath
  | .jobs, value => (readCount value).map jobs
  | .output, value => (readPath value).map output
  | _, _ => .error .tooManyValues

/-- The setting of a plain switch. -/
def ofSwitch : Switch → Except UsageError Setting
  | .report => .ok report
  | .keptSample => .ok keptSample
  | .noValidate => .ok noValidate
  | .help => .error .helpRequested
  | _ => .error .invalidValue

end Setting

end ChunkPrune
