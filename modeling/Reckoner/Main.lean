import Reckoner.CommandLine

/-!
# The program

Reads the settings file and the environment, and then does what the command line says. The settings
file is `config.json` in the working directory, or the file that `CALCULATOR_CONFIG` names; the
variable `LOG_LEVEL` overrides the log level. Half of a surrogate pair is printed as the replacement
character.
-/

namespace Reckoner.Main

/-- The settings file and the override as they are outside. -/
def readStore : IO Settings.Store := do
  let path := match ← IO.getEnv "CALCULATOR_CONFIG" with
    | some path => if path.isEmpty then "config.json" else path
    | none => "config.json"
  let file ← try pure (some (← IO.FS.readBinFile path)) catch
    | .noFileOrDirectory .. => pure none
    | error => throw error
  return ⟨file, (← IO.getEnv "LOG_LEVEL").map Text.Points.ofString⟩

/-- Tells why a command is refused. -/
def refuse (refusal : Refusal) : IO UInt32 := do
  IO.eprintln refusal.message
  return 1

/-- Prompts for lines until one asks to quit or there are no more. The store is read for each line,
so that a change of the settings file shows at once. -/
partial def converse (session : Session) : IO UInt32 := do
  let input ← IO.getStdin
  let output ← IO.getStdout
  output.putStr Conversation.prompt
  output.flush
  let line ← input.getLine
  if line.isEmpty then return 0
  match Conversation.step (← readStore) session line with
  | .error refusal => refuse refusal
  | .ok .quit => return 0
  | .ok .skip => converse session
  | .ok (.reply text session) => do
      output.putStrLn text.replaceHalves
      converse session

end Reckoner.Main

def main (arguments : List String) : IO UInt32 := do
  let store ← Reckoner.Main.readStore
  match Reckoner.CommandLine.prepare store with
  | .error refusal => Reckoner.Main.refuse refusal
  | .ok _ =>
      if arguments.isEmpty then
        IO.println Reckoner.Conversation.heading
        Reckoner.Main.converse .fresh
      else match Reckoner.CommandLine.answer store arguments with
        | .error refusal => Reckoner.Main.refuse refusal
        | .ok outcome => do
            IO.print outcome.output.replaceHalves
            return outcome.exitCode.toUInt32
