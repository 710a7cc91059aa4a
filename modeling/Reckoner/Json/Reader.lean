import Reckoner.Decimal.Reading
import Reckoner.Json.Basic
import Reckoner.Text.Hex

/-!
# Reading JSON

A value is read from a list of characters by recursive descent; every reader returns the value and
what follows it. The reader of nested values is bounded by the length of the text, which every step
shortens, so the bound is never what stops it.

Beyond the standard, `NaN`, `Infinity` and `-Infinity` are numbers. A key that occurs again gives
its value to the first occurrence.
-/

namespace Reckoner.Json

/-- Why a text is not read. -/
inductive ReadFault where
  /-- The text is not JSON. -/
  | notJson
  /-- An integer has more digits than are converted. -/
  | integerTooLong
deriving DecidableEq, Repr

/-- A value that was read, and what follows it. -/
abbrev Read (α : Type) : Type := Except ReadFault (α × List Char)

/-- What follows the white space at the start. -/
def skipSpace (cs : List Char) : List Char :=
  cs.dropWhile fun c => c == ' ' || c == '\t' || c == '\n' || c == '\r'

/-! ## Strings -/

/-- The code unit that four hexadecimal digits stand for. -/
def hexUnit? (a b c d : Char) : Option Nat := do
  let a ← Text.hexValue? a
  let b ← Text.hexValue? b
  let c ← Text.hexValue? c
  let d ← Text.hexValue? d
  return ((a * 16 + b) * 16 + c) * 16 + d

/-- The character that a letter after a backslash stands for. -/
def shortEscape? (c : Char) : Option Nat :=
  [('"', 0x22), ('\\', 0x5c), ('/', 0x2f), ('b', 0x8), ('f', 0xc), ('n', 0xa), ('r', 0xd),
   ('t', 0x9)].lookup c

/-- The code points up to the quote that ends a string; an escape stands for one code unit. -/
def readUnits : List Char → Read (List Nat)
  | '"' :: rest => .ok ([], rest)
  | '\\' :: 'u' :: a :: b :: c :: d :: rest =>
      match hexUnit? a b c d with
      | some unit => (readUnits rest).map fun (units, rest) => (unit :: units, rest)
      | none => .error .notJson
  | '\\' :: c :: rest =>
      match shortEscape? c with
      | some unit => (readUnits rest).map fun (units, rest) => (unit :: units, rest)
      | none => .error .notJson
  | c :: rest =>
      if c.toNat < 0x20 ∨ c = '\\' then .error .notJson
      else (readUnits rest).map fun (units, rest) => (c.toNat :: units, rest)
  | [] => .error .notJson

/-- The text of code points in which a high and a low surrogate side by side stand for one
character. A surrogate without its partner is a half. -/
def joinUnits : List Nat → Text.Points
  | high :: low :: rest =>
      if 0xd800 ≤ high ∧ high < 0xdc00 ∧ 0xdc00 ≤ low ∧ low < 0xe000 then
        .char (Char.ofNat (0x10000 + (high - 0xd800) * 0x400 + (low - 0xdc00))) :: joinUnits rest
      else .ofNat high :: joinUnits (low :: rest)
  | [unit] => [.ofNat unit]
  | [] => []

/-- A string after its opening quote. -/
def readText (cs : List Char) : Read Text.Points :=
  (readUnits cs).map fun (units, rest) => (joinUnits units, rest)

/-! ## Numbers -/

/-- The digits before the point: a single zero, or digits that do not begin with one. -/
def wholeDigits : List Char → List Char
  | '0' :: _ => ['0']
  | cs => cs.takeWhile Char.isDigit

/-- A number without its sign. A point or an exponent makes it a real. -/
def readMagnitude (negative : Bool) (cs : List Char) : Read Json :=
  let whole := wholeDigits cs
  let rest := cs.drop whole.length
  if whole.isEmpty then .error .notJson
  else
    let (fraction?, rest) := Decimal.readFraction rest
    let (exponent?, rest) := Decimal.readExponent rest
    if fraction?.isNone ∧ exponent?.isNone then
      if Decimal.maxIntegerDigits < whole.length then .error .integerTooLong
      else .ok (integer (Decimal.signedInt negative (Decimal.digitsValue whole)), rest)
    else
      let fraction := fraction?.getD []
      let decimal : Decimal :=
        ⟨Decimal.digitsValue (whole ++ fraction), exponent?.getD 0 - fraction.length⟩
      .ok (real (decimal.toBinary64 negative), rest)

/-- What follows a word, if the text starts with it. -/
def afterWord? (word : String) (cs : List Char) : Option (List Char) :=
  if word.toList.isPrefixOf cs then some (cs.drop word.length) else none

/-- The words that are values. -/
def words : List (String × Json) :=
  [("null", null), ("true", bool true), ("false", bool false), ("NaN", real .nan),
   ("Infinity", real (.infinite false)), ("-Infinity", real (.infinite true))]

/-- A word or a number. -/
def readPlain (cs : List Char) : Read Json :=
  match words.findSome? fun (word, value) => (afterWord? word cs).map fun rest => (value, rest) with
  | some found => .ok found
  | none =>
      match cs with
      | '-' :: rest => readMagnitude true rest
      | _ => readMagnitude false cs

/-! ## Nested values -/

mutual

/-- A value that starts here, with at most `bound` steps of nesting and repetition. -/
def readValue : Nat → List Char → Except ReadFault (Json × List Char)
  | 0, _ => .error .notJson
  | bound + 1, cs =>
      match cs with
      | '"' :: rest => (readText rest).map fun (value, rest) => (text value, rest)
      | '[' :: rest =>
          match skipSpace rest with
          | ']' :: rest => .ok (list [], rest)
          | rest => (readItems bound rest).map fun (items, rest) => (list items, rest)
      | '{' :: rest =>
          match skipSpace rest with
          | '}' :: rest => .ok (object [], rest)
          | rest => (readFields bound rest).map fun (fields, rest) =>
              (object (fields.foldl (fun known (key, value) => putField key value known) []), rest)
      | cs => readPlain cs

/-- The items of a list up to its end. -/
def readItems : Nat → List Char → Except ReadFault (List Json × List Char)
  | 0, _ => .error .notJson
  | bound + 1, cs => do
      let (item, rest) ← readValue bound cs
      match skipSpace rest with
      | ',' :: rest =>
          let (items, rest) ← readItems bound (skipSpace rest)
          return (item :: items, rest)
      | ']' :: rest => return ([item], rest)
      | _ => .error .notJson

/-- The fields of an object up to its end. -/
def readFields : Nat → List Char → Except ReadFault (List (Text.Points × Json) × List Char)
  | 0, _ => .error .notJson
  | bound + 1, cs =>
      match cs with
      | '"' :: rest => do
          let (key, rest) ← readText rest
          match skipSpace rest with
          | ':' :: rest =>
              let (value, rest) ← readValue bound (skipSpace rest)
              match skipSpace rest with
              | ',' :: rest =>
                  let (fields, rest) ← readFields bound (skipSpace rest)
                  return ((key, value) :: fields, rest)
              | '}' :: rest => return ([(key, value)], rest)
              | _ => .error .notJson
          | _ => .error .notJson
      | _ => .error .notJson

end

/-- The value that a whole text stands for. -/
def parse (cs : List Char) : Except ReadFault Json := do
  let (value, rest) ← readValue (cs.length + 1) (skipSpace cs)
  if (skipSpace rest).isEmpty then return value else .error .notJson

end Reckoner.Json
