import ChunkPrune.FileTree.Access
import ChunkPrune.Text.Utf8

/-!
# Failures

What can stop a run or the work on one chunk. A failure has a message of its own and
the messages of its causes; every wording stands in this module.
-/

namespace ChunkPrune

/-- How a program ended that did not end well. -/
inductive ExitStatus where
  | code (number : Nat)
  | signal (number : Nat) (name : String)
  deriving DecidableEq, Repr

def ExitStatus.message : ExitStatus → String
  | code number => "exit status: " ++ toString number
  | signal number name =>
    "signal: " ++ toString number ++ if name = "" then "" else " (" ++ name ++ ")"

inductive Failure where
  | engineUnavailable (program : String)
  | noUsageReports (usageFile : String) (apps : List String)
  | noRepository
  | unreadable (path : Path) (cause : ReadError)
  | usageNotJson (path : Path)
  | configNotJson
  | engineExit (status : ExitStatus) (output : String)
  | engineOutput (cause : Utf8Error)
  | engine (message : String)
  | answerNotJson
  | stageBackup (directory : Path) (cause : OsError)
  | fillBackup (backup : Path) (cause : OsError)
  | createBackup (backup : Path) (cause : OsError)
  | inspectBackup (backup : Path) (cause : OsError)
  | replaceBackup (backup : Path) (cause : OsError)
  | unwritable (path : Path) (cause : OsError)
  | createReport (path : Path) (cause : OsError)
  | restore (chunk backup : Path) (cause : OsError)
  | walk (directory : Path) (cause : OsError)
  deriving DecidableEq, Repr

namespace Failure

/-- The message of the failure itself, without its causes. -/
def message : Failure → String
  | engineUnavailable program =>
    "Pruning engine unavailable: '" ++ program ++
      "' could not be resolved: cannot find binary path"
  | noUsageReports usageFile apps =>
    "No usable " ++ usageFile ++ " files found for apps: " ++ ", ".intercalate apps ++
      ". Please run the build first."
  | noRepository => "Could not find .git directory in any parent folder"
  | unreadable path _ => "Failed to read " ++ path.text
  | usageNotJson path => "Failed to parse " ++ path.text
  | configNotJson => "Engine config is not valid JSON"
  | engineExit status output =>
    "Pruning engine exited with " ++ status.message ++ ": " ++ output
  | engineOutput _ => "Pruning engine output is not valid UTF-8"
  | engine message => message
  | answerNotJson => "Optimizer did not return valid JSON"
  | stageBackup directory _ => "Failed to stage backup in " ++ directory.text
  | fillBackup backup _ => "Failed to write backup " ++ backup.text
  | createBackup backup _ => "Failed to create backup " ++ backup.text
  | inspectBackup backup _ => "Failed to inspect backup " ++ backup.text
  | replaceBackup backup _ => "Failed to replace backup " ++ backup.text
  | unwritable path _ => "Failed to write " ++ path.text
  | createReport path _ => "Failed to create " ++ path.text
  | restore chunk backup _ => "Failed to restore " ++ chunk.text ++ " from " ++ backup.text
  | walk directory cause =>
    directory.text ++ ": IO error for operation on " ++ directory.text ++ ": " ++ cause.message

/-- The messages of the causes, the nearest one first. -/
def causes : Failure → List String
  | unreadable _ cause => [cause.message]
  | engineOutput cause => [cause.message]
  | stageBackup _ cause => [cause.message]
  | fillBackup _ cause => [cause.message]
  | createBackup _ cause => [cause.message]
  | inspectBackup _ cause => [cause.message]
  | replaceBackup _ cause => [cause.message]
  | unwritable _ cause => [cause.message]
  | createReport _ cause => [cause.message]
  | restore _ _ cause => [cause.message]
  | _ => []

/-- The failure and its causes on one line. -/
def summary (failure : Failure) : String :=
  ": ".intercalate (failure.message :: failure.causes)

end Failure

end ChunkPrune
