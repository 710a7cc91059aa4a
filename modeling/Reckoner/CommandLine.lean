import Reckoner.Conversation
import Reckoner.Settings.LogLevel

/-!
# The command line

The arguments, joined by spaces, are one problem; without arguments there is a conversation over
the lines of the input. Settings that cannot be read, and a log level that is none, are refused
before anything is answered.
-/

namespace Reckoner.CommandLine

/-- How a command ends: its exit code and everything it printed. -/
structure Outcome where
  exitCode : Nat
  output : Text.Points
deriving DecidableEq, Repr

/-- The settings, if they and the log level among them are fit for use. -/
def prepare (store : Settings.Store) : Except Refusal (Settings × Nat) := do
  let settings ← store.load
  let level ← Settings.LogLevel.ofSetting (settings.get Settings.levelName)
  return (settings, level)

/-- The answer to the arguments as one problem; the exit code tells whether it is a value. -/
def answer (store : Settings.Store) (arguments : List String) : Except Refusal Outcome := do
  let shown ← Shown.ofProblem store (.text (String.intercalate " " arguments))
  return ⟨if shown.isOk then 0 else 1, shown.display.plain ++ "\n"⟩

/-- The command with these arguments and this input. -/
def run (store : Settings.Store) (arguments : List String) (input : String) :
    Except Refusal Outcome := do
  let _ ← prepare store
  if arguments.isEmpty then
    let conversation ← Conversation.hold store (Text.lines input)
    return ⟨0, conversation.transcript⟩
  else answer store arguments

end Reckoner.CommandLine
