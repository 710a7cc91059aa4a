import Reckoner.Text.Hex
import Reckoner.Text.Points
import Reckoner.Text.Printable

/-!
# Quoted text

Text in a message stands in single quotes; in double quotes if it holds a single quote and no
double one. A backslash, the quote itself, the characters that are not printable and the lone
halves of surrogate pairs are escaped.
-/

namespace Reckoner.Text

/-- A character as it stands between quotes of the given kind. -/
def quotedChar (quote c : Char) : List Char :=
  if c = quote ∨ c = '\\' then ['\\', c]
  else if c = '\n' then ['\\', 'n']
  else if c = '\r' then ['\\', 'r']
  else if c = '\t' then ['\\', 't']
  else if isPrintable c then [c]
  else if c.toNat < 0x100 then '\\' :: 'x' :: hexDigits 2 c.toNat
  else if c.toNat < 0x10000 then '\\' :: 'u' :: hexDigits 4 c.toNat
  else '\\' :: 'U' :: hexDigits 8 c.toNat

/-- A code point as it stands between quotes of the given kind. -/
def quotedPoint (quote : Char) : Point → List Char
  | .char c => quotedChar quote c
  | .half offset => '\\' :: 'u' :: hexDigits 4 (Point.half offset).toNat

/-- The quote that a text is put in. -/
def quoteFor (text : Points) : Char :=
  if text.contains (.char '\'') && !text.contains (.char '"') then '"' else '\''

/-- The text in quotes. -/
def quoted (text : Points) : String :=
  let quote := quoteFor text
  String.ofList (quote :: (text.flatMap (quotedPoint quote) ++ [quote]))

end Reckoner.Text
