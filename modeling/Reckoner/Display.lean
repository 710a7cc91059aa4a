import Reckoner.Binary64.Arithmetic
import Reckoner.Decimal.Notation
import Reckoner.Decimal.Reading
import Reckoner.Json.Basic
import Reckoner.Refusal

/-!
# Displaying a result

A result is rounded to a number of decimal places, a half going away from zero, and written in the
shortest form: a whole number without a fraction, another number without zeros at its end.
-/

namespace Reckoner.Display

/-! ## The number of places -/

/-- The most places that are of use to a binary64 number. -/
def maxPlaces : Nat := 15

/-- The places in use: between none and `maxPlaces`. -/
def clampPlaces (places : Int) : Nat := min places.toNat maxPlaces

/-- The integer that a value given for the places stands for; a real loses its fraction. -/
def placesOf (value : Json) : Except Refusal Int :=
  match value with
  | .bool value => .ok (if value then 1 else 0)
  | .integer value => .ok value
  | .real .nan => .error .placesNotInteger
  | .real (.infinite _) => .error .placesInfinite
  | .real value => .ok (value.truncate.getD 0)
  | .text text =>
      match text.toString?.bind Decimal.readInteger? with
      | some value => .ok value
      | none => .error .placesNotInteger
  | .null | .list _ | .object _ => .error .placesNotNumber

/-! ## Rounding and writing -/

/-- The number rounded to places after the point. From `2^53` on the scaled number has no fraction,
and nothing is rounded. -/
def roundTo (places : Nat) (x : Binary64) : Binary64 :=
  match x.mul (.ofNat (tenPow places)) with
  | .finite negative rank =>
      let scaled := Binary64.units rank.val
      if scaled < twoPow 53 * Binary64.unitsInOne then
        let whole := roundDiv .upward scaled Binary64.unitsInOne
        .nearest negative (whole * Binary64.unitsInOne) (tenPow places)
      else x
  | _ => x

/-- Whole numbers below `10^21` are written in full. -/
def fullBelow : Nat := tenPow 21

/-- The shortest form of a number. Zero has no sign. -/
def write (x : Binary64) : String :=
  match x with
  | .finite negative rank =>
      let magnitude := Binary64.units rank.val
      if rank.val = 0 then "0"
      else if magnitude % Binary64.unitsInOne = 0 ∧ magnitude < fullBelow * Binary64.unitsInOne then
        String.ofList
          (Binary64.signChars negative ++ Decimal.digitsOf (magnitude / Binary64.unitsInOne))
      else x.shortestText
  | _ => x.shortestText

/-- A result rounded to the given places and written. -/
def result (places : Int) (x : Binary64) : String := write (roundTo (clampPlaces places) x)

end Reckoner.Display
