import Reckoner.Decimal.Basic
import Reckoner.Text.Blank
import Reckoner.Text.DecimalDigit

/-!
# Reading numbers

Numbers that a person or a file spells out, in the generous forms: blanks around the number, the
decimal digits of every script, single low lines between digits, a sign, and for binary64 numbers a
point, an exponent and the names of the values that are not finite.

Expressions use the strict literals of `Reckoner.Literal` instead.
-/

namespace Reckoner.Decimal

/-! ## The ASCII form -/

/-- The character that a numeral shows for this one: a digit of any script for its ASCII digit, the
space for a blank beyond ASCII, and for another character beyond ASCII one that no numeral has. -/
def asciiForm (c : Char) : Char :=
  if c.toNat < 0x80 then c
  else if Text.isBlank c then ' '
  else match Text.digitValue? c with
    | some digit => digitChar digit
    | none => '?'

/-- The ASCII blanks that may surround a numeral. -/
def isSurround (c : Char) : Bool := c = ' ' || (0x9 ≤ c.toNat && c.toNat ≤ 0xd)

/-- The characters of a numeral, in ASCII and without the blanks around it. -/
def numeralChars (s : String) : List Char := Text.trimBy isSurround (s.toList.map asciiForm)

/-- The characters without low lines, each of which must stand between two digits. -/
def joinDigits? (afterDigit : Bool) : List Char → Option (List Char)
  | [] => some []
  | ['_'] => none
  | '_' :: c :: rest =>
      if afterDigit && c.isDigit then (joinDigits? true rest).map (c :: ·) else none
  | c :: rest => (joinDigits? c.isDigit rest).map (c :: ·)

/-- Whether there is a minus sign, and what follows the sign. -/
def splitSign : List Char → Bool × List Char
  | '-' :: rest => (true, rest)
  | '+' :: rest => (false, rest)
  | cs => (false, cs)

/-! ## Integers -/

/-- The most digits that an integer may have. -/
def maxIntegerDigits : Nat := 4300

/-- An integer under a sign. -/
def signedInt (negative : Bool) (magnitude : Nat) : Int :=
  if negative then -(magnitude : Int) else magnitude

/-- The integer that a text spells out. -/
def readInteger? (s : String) : Option Int := do
  let cs ← joinDigits? false (numeralChars s)
  let (negative, digits) := splitSign cs
  if digits.isEmpty || !digits.all Char.isDigit || maxIntegerDigits < digits.length then none
  else some (signedInt negative (digitsValue digits))

/-! ## Binary64 numbers -/

/-- The digits after a point, and what follows them; without digits the point stays. -/
def readFraction (cs : List Char) : Option (List Char) × List Char :=
  match cs with
  | '.' :: rest =>
      let digits := rest.takeWhile Char.isDigit
      if digits.isEmpty then (none, cs) else (some digits, rest.dropWhile Char.isDigit)
  | _ => (none, cs)

/-- An exponent, and what follows it; without digits there is none. -/
def readExponent (cs : List Char) : Option Int × List Char :=
  match cs with
  | e :: rest =>
      if e = 'e' ∨ e = 'E' then
        let (negative, unsigned) := splitSign rest
        let digits := unsigned.takeWhile Char.isDigit
        if digits.isEmpty then (none, cs)
        else (some (signedInt negative (digitsValue digits)), unsigned.dropWhile Char.isDigit)
      else (none, cs)
  | [] => (none, cs)

/-- The number that unsigned characters spell out, under a sign. -/
def readUnsigned? (negative : Bool) (cs : List Char) : Option Binary64 :=
  let name := String.ofList (cs.map Char.toLower)
  if name = "nan" then some .nan
  else if name = "inf" ∨ name = "infinity" then some (.infinite negative)
  else
    let whole := cs.takeWhile Char.isDigit
    let afterPoint := match cs.dropWhile Char.isDigit with
      | '.' :: rest => rest
      | rest => rest
    let hasPoint := afterPoint.length < (cs.dropWhile Char.isDigit).length
    let fraction := if hasPoint then afterPoint.takeWhile Char.isDigit else []
    let (exponent?, rest) := readExponent (afterPoint.drop fraction.length)
    if (whole ++ fraction).isEmpty || !rest.isEmpty then none
    else
      let decimal : Decimal := ⟨digitsValue (whole ++ fraction), exponent?.getD 0 - fraction.length⟩
      some (decimal.toBinary64 negative)

/-- The binary64 number nearest to what a text spells out. -/
def readBinary64? (s : String) : Option Binary64 := do
  let cs ← joinDigits? false (numeralChars s)
  let (negative, unsigned) := splitSign cs
  readUnsigned? negative unsigned

end Reckoner.Decimal
