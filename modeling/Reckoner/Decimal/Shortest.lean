import Reckoner.Decimal.Basic

/-!
# The shortest decimal that reads back

Among the decimals that read back as a given binary64 number there are some with the fewest digits;
of those the nearest to the number is chosen, and of two equally near ones the one with an even
last digit. Seventeen digits always suffice.

All quotients here are taken over `2^1074 * 10^-340`: every binary64 number is a whole multiple of
`2^-1074`, and no decimal that is tried has a digit below `10^-340`.
-/

namespace Reckoner.Decimal

/-- The places after the point that any tried decimal can have: `10^340`. -/
def finestScale : Nat := tenPow 340

/-- The magnitude of this rank over `unitsInOne`, in units of `10^-340`. -/
def scaled (rank : Nat) : Nat := Binary64.units rank * finestScale

/-- The number of digits of a non-zero magnitude, counted down to the place `10^-340`. -/
def scaledLength (rank : Nat) : Nat := decimalLength (scaled rank / Binary64.unitsInOne)

/-- Whether `digits * step`, in units of `10^-340`, is nearest to the magnitude of this rank. -/
def readsBack (rank digits step : Nat) : Bool :=
  Binary64.nearestRank (digits * step * Binary64.unitsInOne) finestScale == rank

/-- The multiple of `step` that stands for the magnitude of this rank, if one of its two
neighbouring multiples reads back; of two the nearer one. -/
def onGrid? (rank step : Nat) : Option Nat :=
  let low := scaled rank / (Binary64.unitsInOne * step)
  if readsBack rank low step then
    if readsBack rank (low + 1) step then
      some (roundDiv .toEven (scaled rank) (Binary64.unitsInOne * step))
    else some low
  else if readsBack rank (low + 1) step then some (low + 1)
  else none

/-- A decimal of `places` digits for the magnitude of this rank, if one reads back. -/
def withPlaces? (rank length places : Nat) : Option Decimal :=
  (onGrid? rank (tenPow (length - places))).map fun digits =>
    ⟨digits, (length : Int) - places - 340⟩

/-- The shortest decimal that reads back as the magnitude of this rank. -/
def shortest (rank : Nat) : Decimal :=
  if rank = 0 then ⟨0, 0⟩
  else
    let length := scaledLength rank
    let found := (List.range 17).findSome? fun n => withPlaces? rank length (n + 1)
    (found.getD ⟨scaled rank / Binary64.unitsInOne, -340⟩).stripZeros

end Reckoner.Decimal
