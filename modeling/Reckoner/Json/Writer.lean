import Reckoner.Json.Basic

/-!
# Writing JSON

The text of a value in ASCII. With an indentation every item and every field is on a line of its
own, and an empty list or object stays on one line; without one the text is a single line.
-/

namespace Reckoner.Json

/-- A code unit of UTF-16 as an escape. -/
def unitEscape (unit : Nat) : List Char := '\\' :: 'u' :: Text.hexDigits 4 unit

/-- A character inside a string. -/
def escapedChar (c : Char) : List Char :=
  if c = '"' then ['\\', '"']
  else if c = '\\' then ['\\', '\\']
  else if c = '\n' then ['\\', 'n']
  else if c = '\r' then ['\\', 'r']
  else if c = '\t' then ['\\', 't']
  else if c.toNat = 0x8 then ['\\', 'b']
  else if c.toNat = 0xc then ['\\', 'f']
  else if 0x20 ≤ c.toNat ∧ c.toNat < 0x7f then [c]
  else if c.toNat < 0x10000 then unitEscape c.toNat
  else
    let offset := c.toNat - 0x10000
    unitEscape (0xd800 + offset / 0x400) ++ unitEscape (0xdc00 + offset % 0x400)

/-- A code point inside a string. -/
def escapedPoint : Text.Point → List Char
  | .char c => escapedChar c
  | .half offset => unitEscape (Text.Point.half offset).toNat

/-- A string. -/
def writeText (text : Text.Points) : List Char := '"' :: (text.flatMap escapedPoint ++ ['"'])

/-- A real number, always told from an integer. -/
def writeReal : Binary64 → String
  | .nan => "NaN"
  | .infinite negative => if negative then "-Infinity" else "Infinity"
  | value => value.shortestText

/-- The start of a line at a depth; nothing without an indentation. -/
def newLine (indent : Option Nat) (depth : Nat) : List Char :=
  match indent with
  | none => []
  | some width => '\n' :: List.replicate (width * depth) ' '

/-- Parts between brackets, each at the start of a line one deeper. -/
def enclose (indent : Option Nat) (depth : Nat) (opening closing : Char)
    (parts : List (List Char)) : List Char :=
  if parts.isEmpty then [opening, closing]
  else
    opening :: (newLine indent (depth + 1)
      ++ List.intercalate (',' :: newLine indent (depth + 1)) parts
      ++ newLine indent depth ++ [closing])

mutual

/-- A value at a depth of nesting. -/
def write (indent : Option Nat) (depth : Nat) : Json → List Char
  | null => "null".toList
  | bool value => (if value then "true" else "false").toList
  | integer value => Decimal.intChars value
  | real value => (writeReal value).toList
  | text value => writeText value
  | list items => enclose indent depth '[' ']' (writeItems indent (depth + 1) items)
  | object fields => enclose indent depth '{' '}' (writeFields indent (depth + 1) fields)

/-- The items of a list. -/
def writeItems (indent : Option Nat) (depth : Nat) : List Json → List (List Char)
  | [] => []
  | item :: items => write indent depth item :: writeItems indent depth items

/-- The fields of an object. -/
def writeFields (indent : Option Nat) (depth : Nat) : List (Text.Points × Json) → List (List Char)
  | [] => []
  | (key, value) :: fields =>
      (writeText key ++ ':' :: ' ' :: write indent depth value) :: writeFields indent depth fields

end

/-- The text of a settings file: four blanks for each depth of nesting. -/
def pretty (value : Json) : String := String.ofList (write (some 4) 0 value)

/-- A value on a single line. -/
def compact (value : Json) : String := String.ofList (write none 0 value)

end Reckoner.Json
