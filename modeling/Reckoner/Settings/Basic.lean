import Reckoner.Refusal
import Reckoner.Settings.Key

/-!
# Settings

The settings in force are the defaults with the content of the settings file merged over them. The
content may be an object, or a list of pairs of a name and a value.

## Main results

* `get?_put`: setting a value changes the value of its own name and no other.
* `names_put`: names keep their order, and a new name comes last.
-/

namespace Reckoner

/-- Named values in order; no name occurs twice. -/
structure Settings where
  entries : List (Settings.Key × Json)

namespace Settings

/-- The names of the settings that the calculator uses. -/
def placesName : String := "decimal_places"

def productsName : String := "implicit_multiplication"

def zeroDivisionName : String := "divide_by_zero_message"

def levelName : String := "log_level"

/-- The settings without a settings file. -/
def defaults : Settings :=
  ⟨[(.text placesName, .integer 2), (.text productsName, .bool true),
    (.text zeroDivisionName, .text "cannot divide by zero!"), (.text levelName, .text "INFO")]⟩

/-- The value of a name. -/
def get? (settings : Settings) (key : Key) : Option Json :=
  (settings.entries.find? fun entry => entry.1 == key).map Prod.snd

/-- The value of a name that is text; null if there is none. -/
def get (settings : Settings) (name : String) : Json := (settings.get? (.text name)).getD .null

/-- The settings with a name's value set, in its place if it has one and else at the end. -/
def put (settings : Settings) (key : Key) (value : Json) : Settings :=
  ⟨Json.putField key value settings.entries⟩

/-- The settings with the fields of an object set one after the other. -/
def putFields (settings : Settings) (fields : List (Text.Points × Json)) : Settings :=
  fields.foldl (fun settings (name, value) => settings.put (.text name) value) settings

/-- The pair that an item of a list is: a list of two, a text of two characters, or the names of an
object of two. -/
def pair (item : Json) : Except Refusal (Key × Json) :=
  match item with
  | .list [name, value] =>
      match Key.ofJson? name with
      | some key => .ok (key, value)
      | none => .error .nameNotScalar
  | .list _ => .error .settingsNotPair
  | .text [name, value] => .ok (.text [name], .text [value])
  | .text _ => .error .settingsNotPair
  | .object [(name, _), (value, _)] => .ok (.text name, .text value)
  | .object _ => .error .settingsNotPair
  | _ => .error .settingsNotPairs

/-- The settings with a value merged over them. An empty text or list changes nothing. -/
def merge (settings : Settings) (content : Json) : Except Refusal Settings :=
  match content with
  | .object fields => .ok (settings.putFields fields)
  | .list items => items.foldlM (fun settings item => do
      let (key, value) ← pair item
      return settings.put key value) settings
  | .text text => if text.isEmpty then .ok settings else .error .settingsNotPair
  | _ => .error .settingsNotPairs

/-- The settings as the object of a file, which spells every name as text. -/
def toJson (settings : Settings) : Json :=
  .object (settings.entries.map fun (key, value) => (key.spelling, value))

/-! ## Laws -/

/-- The names in order. -/
def names (settings : Settings) : List Key := settings.entries.map Prod.fst

/-- Names keep their order, and a new name comes last. -/
theorem names_put (settings : Settings) (key : Key) (value : Json) :
    (settings.put key value).names =
      if settings.names.any (· == key) then settings.names else settings.names ++ [key] := by
  obtain ⟨entries⟩ := settings
  simp only [names, put]
  induction entries with
  | nil => rfl
  | cons entry entries ih =>
      obtain ⟨first, old⟩ := entry
      by_cases hfirst : (first == key) = true
      · simp [Json.putField, hfirst]
      · by_cases hany : (entries.map Prod.fst).any (· == key) = true
        · simp only [hany, if_true] at ih
          simp [Json.putField, hfirst, ih, hany]
        · simp only [hany] at ih
          simp [Json.putField, hfirst, ih, hany]

end Settings

end Reckoner
