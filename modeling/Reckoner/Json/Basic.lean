import Reckoner.Decimal.Notation
import Reckoner.Text.Quoted

/-!
# JSON values

The values that a settings file holds. Integers and reals are apart, as they are in the text of the
file: `2` is an integer and `2.0` is a real. The fields of an object are in the order of the file.
Text is a row of code points, because an escape can spell half of a surrogate pair.
-/

namespace Reckoner

inductive Json where
  | null
  | bool (value : Bool)
  | integer (value : Int)
  | real (value : Binary64)
  | text (value : Text.Points)
  | list (items : List Json)
  | object (fields : List (Text.Points × Json))
deriving BEq, Inhabited

namespace Json

/-- Gives a key a value: in its place if it has one, else at the end. -/
def putField {κ : Type} [BEq κ] (key : κ) (value : Json) :
    List (κ × Json) → List (κ × Json)
  | [] => [(key, value)]
  | (other, old) :: rest =>
      if other == key then (other, value) :: rest else (other, old) :: putField key value rest

/-- The value of a field. -/
def field? (name : String) : Json → Option Json
  | object fields => fields.lookup (Text.Points.ofString name)
  | _ => none

/-- The value of a field; null if there is none. -/
def field (name : String) (value : Json) : Json := (value.field? name).getD null

/-- What kind of value it is, in one word. -/
def kindName : Json → String
  | null => "NoneType"
  | bool _ => "bool"
  | integer _ => "int"
  | real _ => "float"
  | text _ => "str"
  | list _ => "list"
  | object _ => "dict"

/-- Whether a value counts as "yes": everything does but null, false, zero and what is empty. -/
def isTruthy : Json → Bool
  | null => false
  | bool value => value
  | integer value => value != 0
  | real value => !value.isZero
  | text value => !value.isEmpty
  | list items => !items.isEmpty
  | object fields => !fields.isEmpty

/-! ## Values on one line -/

mutual

/-- A value inside a line of text; text stands in quotes. -/
def inline : Json → String
  | null => "None"
  | bool value => if value then "True" else "False"
  | integer value => Decimal.intText value
  | real value => value.shortestText
  | text value => Text.quoted value
  | list items => "[" ++ String.intercalate ", " (inlineItems items) ++ "]"
  | object fields => "\x7b" ++ String.intercalate ", " (inlineFields fields) ++ "\x7d"

def inlineItems : List Json → List String
  | [] => []
  | item :: items => item.inline :: inlineItems items

def inlineFields : List (Text.Points × Json) → List String
  | [] => []
  | (key, value) :: fields =>
      (Text.quoted key ++ ": " ++ value.inline) :: inlineFields fields

end

/-- A value as it is printed on its own: text without quotes. -/
def plain : Json → Text.Points
  | text value => value
  | value => value.inline

end Json

end Reckoner
