import Reckoner.Decimal.Shortest

/-!
# Writing numbers

Three notations of a binary64 number.

* **shortest**: the fewest digits that read back, always recognisable as a number with a fraction
  or an exponent (`5.0`, `0.0001`, `1e+16`).
* **significant**: six significant digits of the exact value, without needless zeros (`5`, `1e+06`).
* **fixed**: the exact value rounded to six places after the point (`5.000000`).

The first two share one layout of digits and differ in where positional writing ends and in whether
a whole number shows a point.
-/

namespace Reckoner

/-- How the digits of a number are laid out. -/
structure Layout where
  /-- Numbers whose leading digit stands at this power of ten or above get an exponent. -/
  positionalBelow : Int
  /-- Whether a whole number written positionally ends in `.0`. -/
  showsPoint : Bool

namespace Layout

open Decimal

/-- The layout of the shortest notation. -/
def shortest : Layout := ⟨16, true⟩

/-- The layout of six significant digits. -/
def significant : Layout := ⟨6, false⟩

/-- A row of zeros. -/
def zeros (n : Nat) : List Char := List.replicate n '0'

/-- An exponent: a sign and at least two digits. -/
def exponentChars (e : Int) : List Char :=
  let digits := digitsOf e.natAbs
  'e' :: (if e < 0 then '-' else '+') :: (zeros (2 - digits.length) ++ digits)

/-- A decimal laid out: positionally when its leading digit stands between `10^-4` and the limit of
the layout, else with one digit before the point and an exponent. -/
def write (layout : Layout) (d : Decimal) : List Char :=
  let digits := digitsOf d.digits
  let lead := d.leadingExponent
  if -4 ≤ lead ∧ lead < layout.positionalBelow then
    if 0 ≤ d.exponent then
      digits ++ zeros d.exponent.toNat ++ (if layout.showsPoint then ['.', '0'] else [])
    else if 0 ≤ lead then
      let whole := (lead + 1).toNat
      digits.take whole ++ '.' :: digits.drop whole
    else '0' :: '.' :: (zeros (-lead - 1).toNat ++ digits)
  else
    let fraction := digits.drop 1
    digits.take 1 ++ (if fraction.isEmpty then [] else '.' :: fraction) ++ exponentChars lead

end Layout

namespace Binary64

/-- The sign of a number as it is written. -/
def signChars (negative : Bool) : List Char := if negative then ['-'] else []

/-- The text of a number that is not finite, else the text of its magnitude after its sign. -/
def write (magnitude : Nat → List Char) (x : Binary64) : String :=
  String.ofList (match x with
    | nan => ['n', 'a', 'n']
    | infinite negative => signChars negative ++ ['i', 'n', 'f']
    | finite negative rank => signChars negative ++ magnitude rank.val)

/-- The shortest notation that reads back. -/
def shortestText : Binary64 → String :=
  write fun rank => Layout.shortest.write (Decimal.shortest rank)

/-- Six significant digits of the magnitude of this rank, a half going to the even digit. -/
def sixDigits (rank : Nat) : Decimal :=
  if rank = 0 then ⟨0, 0⟩
  else
    let length := Decimal.scaledLength rank
    let digits := roundDiv .toEven (Decimal.scaled rank) (unitsInOne * tenPow (length - 6))
    Decimal.stripZeros ⟨digits, (length : Int) - 346⟩

/-- The notation with six significant digits. -/
def significantText : Binary64 → String :=
  write fun rank => Layout.significant.write (sixDigits rank)

/-- The notation with six places after the point, a half going to the even digit. -/
def fixedText : Binary64 → String :=
  write fun rank =>
    let millionths := roundDiv .toEven (units rank * tenPow 6) unitsInOne
    let fraction := Decimal.digitsOf (millionths % tenPow 6)
    Decimal.digitsOf (millionths / tenPow 6)
      ++ '.' :: (Layout.zeros (6 - fraction.length) ++ fraction)

end Binary64

end Reckoner
