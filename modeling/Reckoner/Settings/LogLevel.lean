import Reckoner.Json.Basic
import Reckoner.Refusal
import Reckoner.Text.Capital

/-!
# Log levels

A level is named by a word in any case. A text that names no level stands for the usual one, except
two words that name other parts of the logging system and are refused.
-/

namespace Reckoner.Settings.LogLevel

/-- The usual level. -/
def info : Nat := 20

/-- The levels by name. -/
def levels : List (String × Nat) :=
  [("NOTSET", 0), ("DEBUG", 10), ("INFO", 20), ("WARN", 30), ("WARNING", 30), ("ERROR", 40),
   ("CRITICAL", 50), ("FATAL", 50)]

/-- The level that a setting stands for. -/
def ofSetting (setting : Json) : Except Refusal Nat :=
  match setting.plain.toString?.map Text.inCapitals with
  | none => .ok info
  | some name =>
      if name = "BASIC_FORMAT" then .error .levelNotKnown
      else if name = "_STYLES" then .error .levelNotNumber
      else .ok ((levels.lookup name).getD info)

/-- The level of the records about the settings themselves: never below the usual one. -/
def forSettings (level : Nat) : Nat := max level info

end Reckoner.Settings.LogLevel
