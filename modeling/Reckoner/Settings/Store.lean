import Reckoner.Json.Reader
import Reckoner.Settings.Basic

/-!
# Where settings are kept

The settings file, which may be absent, and an override of the log level from outside the file. The
settings in force are read anew whenever they are needed.
-/

namespace Reckoner.Settings

/-- What a name is looked up as: one name stands for all settings, every other one for a value. -/
inductive Found where
  | all (settings : Settings)
  | value (value : Json)

/-- What was found, as a file spells it. -/
def Found.toJson : Found → Json
  | .all settings => settings.toJson
  | .value content => content

structure Store where
  /-- The bytes of the settings file. -/
  file : Option ByteArray
  /-- The log level from outside; an empty one counts as none. -/
  levelOverride : Option Text.Points

namespace Store

/-- No file and no override. -/
def empty : Store := ⟨none, none⟩

/-- The text of the file, if there is a file. -/
def text? (store : Store) : Except Refusal (Option String) :=
  match store.file with
  | none => .ok none
  | some bytes =>
      match String.fromUTF8? bytes with
      | some text => .ok (some text)
      | none => .error .settingsNotText

/-- The defaults with the content of a file merged over them. A text that is not JSON changes
nothing. -/
def ofText (text : String) : Except Refusal Settings :=
  match Json.parse text.toList with
  | .ok content => defaults.merge content
  | .error .notJson => .ok defaults
  | .error .integerTooLong => .error .settingsIntegerTooLong

/-- The settings without the override. -/
def loadFile (store : Store) : Except Refusal Settings := do
  match ← store.text? with
  | some text => ofText text
  | none => return defaults

/-- The settings in force. -/
def load (store : Store) : Except Refusal Settings := do
  let settings ← store.loadFile
  match store.levelOverride with
  | none => return settings
  | some level =>
      return if level.isEmpty then settings else settings.put (.text levelName) (.text level)

/-- The name that stands for all settings together. -/
def allName : String := "all"

/-- What a name stands for: all settings for the name `all`, and null for a name that has no
value. -/
def lookup (store : Store) (name : Json) : Except Refusal Found := do
  let settings ← store.load
  match Key.ofJson? name with
  | none => .error .nameNotScalar
  | some key =>
      return if key = .text allName then .all settings else .value ((settings.get? key).getD .null)

/-- The store with a text as its file. -/
def write (store : Store) (text : String) : Store := { store with file := some text.toUTF8 }

/-- The store with a value as the content of its file. -/
def save (store : Store) (content : Json) : Store := store.write content.pretty

/-- The settings in force with some fields set, and the store with these settings as its file. -/
def update (store : Store) (fields : List (Text.Points × Json)) :
    Except Refusal (Settings × Store) := do
  let settings := (← store.load).putFields fields
  return (settings, store.save settings.toJson)

end Store

end Reckoner.Settings
