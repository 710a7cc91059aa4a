import Reckoner.Powers
import Reckoner.Rounding

/-!
# IEEE 754 binary64 numbers

The numbers of the calculator, as data that proofs can see. A finite number is a sign and the
**rank** of its magnitude: the finite magnitudes in ascending order are `0, 1, 2, …`, so the rank
orders them, and it is also the bit pattern of the magnitude, exponent field above fraction field.

The magnitude itself is counted in the smallest positive number, `2^-1074`: `units` gives that
count exactly, as a natural. All arithmetic is done on units and rounded once, by `nearestRank`.

There is one NaN: its sign and payload can be seen nowhere in the calculator's answers.

## Main results

* `units_lt_units`: a greater rank has more units.
* `nearestRank_units`: every finite magnitude is its own rounding.
* `ofBits_toBits`: a number is determined by its bit pattern.
-/

namespace Reckoner

namespace Binary64

/-- The number of magnitudes that share an exponent field: `2^52`. -/
def fractions : Nat := twoPow 52

/-- The number of finite magnitudes; the rank of the largest is one less. -/
def rankLimit : Nat := 2047 * fractions

end Binary64

/-- An IEEE 754 binary64 number. -/
inductive Binary64 where
  | nan
  | infinite (negative : Bool)
  | finite (negative : Bool) (rank : Fin Binary64.rankLimit)
deriving DecidableEq

namespace Binary64

/-! ## Magnitudes -/

/-- How many times `2^-1074` the magnitude of this rank is: for the subnormal numbers, which have
the lowest exponent field, the rank itself; above them the fraction with its leading one, shifted by
the exponent field. -/
def units (rank : Nat) : Nat :=
  if rank < fractions then rank else (rank % fractions + fractions) <<< (rank / fractions - 1)

/-- The units in one. -/
def unitsInOne : Nat := twoPow 1074

theorem unitsInOne_pos : 0 < unitsInOne := twoPow_pos 1074

/--
The rank of the magnitude nearest to `num / den` units, ties to the even rank.

With `k` the number of bits by which the quotient exceeds the 53 that a magnitude holds, the
quotient is rounded to a multiple of `2^k`. A rounding that carries into the next power of two
needs no case of its own: it lands on the first rank of that power. The answer may be `rankLimit` or
more, which stands for a magnitude beyond the finite ones.
-/
def nearestRank (num den : Nat) : Nat :=
  let k := (num / den).log2 - 52
  k * fractions + roundDiv .toEven num (den <<< k)

/-! ## Building numbers -/

/-- The number nearest to `num / den` units with the given sign; beyond the finite range, an
infinity. -/
def nearest (negative : Bool) (num den : Nat) : Binary64 :=
  if h : nearestRank num den < rankLimit then finite negative ⟨nearestRank num den, h⟩
  else infinite negative

/-- Zero with the given sign. -/
def zero (negative : Bool) : Binary64 := finite negative ⟨0, by decide⟩

/-- The number nearest to a natural. -/
def ofNat (n : Nat) : Binary64 := nearest false (n * unitsInOne) 1

/-- The number nearest to an integer. -/
def ofInt (n : Int) : Binary64 := nearest (n < 0) (n.natAbs * unitsInOne) 1

instance : Inhabited Binary64 := ⟨zero false⟩

/-! ## Tests and order -/

/-- Neither NaN nor an infinity. -/
def isFinite : Binary64 → Bool
  | finite _ _ => true
  | _ => false

/-- Zero of either sign. -/
def isZero : Binary64 → Bool
  | finite _ rank => rank.val == 0
  | _ => false

/-- The place of a number on the line, for comparisons: the rank with the sign, an infinity beyond
all of them, and no place for NaN. Both zeros are at `0`. -/
def place? : Binary64 → Option Int
  | nan => none
  | infinite negative => some (if negative then -rankLimit else rankLimit)
  | finite negative rank => some (if negative then -rank.val else rank.val)

/-- Strictly smaller; false when either side is NaN. -/
def lt (x y : Binary64) : Bool :=
  match x.place?, y.place? with
  | some a, some b => a < b
  | _, _ => false

/-- Numerically equal: the zeros are equal to each other and NaN is equal to nothing. -/
def equals (x y : Binary64) : Bool :=
  match x.place?, y.place? with
  | some a, some b => a == b
  | _, _ => false

/-- A finite number without a fraction. -/
def isWhole : Binary64 → Bool
  | finite _ rank => units rank.val % unitsInOne == 0
  | _ => false

/-- The integer part of a finite number, its fraction dropped. -/
def truncate : Binary64 → Option Int
  | finite negative rank =>
      let whole := units rank.val / unitsInOne
      some (if negative then -whole else whole)
  | _ => none

/-! ## The bit pattern -/

/-- The place value of the sign bit. -/
def signBit : Nat := twoPow 63

/-- The 64 bits of the number, sign bit first. -/
def toBits : Binary64 → Nat
  | nan => rankLimit + twoPow 51
  | infinite negative => (if negative then signBit else 0) + rankLimit
  | finite negative rank => (if negative then signBit else 0) + rank.val

/-- The number with these 64 bits; every NaN pattern reads as the one NaN. -/
def ofBits (bits : Nat) : Binary64 :=
  let negative := bits / signBit % 2 == 1
  let rank := bits % signBit
  if h : rank < rankLimit then finite negative ⟨rank, h⟩
  else if rank = rankLimit then infinite negative
  else nan

/-! ## Laws -/

theorem fractions_eq : fractions = 4503599627370496 := rfl

theorem units_of_lt {rank : Nat} (h : rank < fractions) : units rank = rank := if_pos h

theorem units_of_le {rank : Nat} (h : fractions ≤ rank) :
    units rank = (rank % fractions + fractions) * twoPow (rank / fractions - 1) := by
  rw [units, if_neg (Nat.not_lt.2 h), shiftLeft_eq_mul]

/-- One rank further is at least one unit more. -/
theorem units_lt_succ (rank : Nat) : units rank < units (rank + 1) := by
  by_cases hlow : rank + 1 < fractions
  · rw [units_of_lt hlow, units_of_lt (by omega)]
    omega
  by_cases hedge : rank < fractions
  · have hrank : rank = fractions - 1 := by omega
    subst hrank
    decide
  rw [units_of_le (by omega : fractions ≤ rank), units_of_le (by omega : fractions ≤ rank + 1)]
  rw [fractions_eq] at hedge ⊢
  by_cases hcarry : rank % 4503599627370496 + 1 < 4503599627370496
  · have hdiv : (rank + 1) / 4503599627370496 = rank / 4503599627370496 := by omega
    have hmod : (rank + 1) % 4503599627370496 = rank % 4503599627370496 + 1 := by omega
    rw [hdiv, hmod]
    exact Nat.mul_lt_mul_of_pos_right (by omega) (twoPow_pos _)
  · have hdiv : (rank + 1) / 4503599627370496 - 1 = rank / 4503599627370496 - 1 + 1 := by omega
    have hmod : (rank + 1) % 4503599627370496 = 0 := by omega
    rw [hdiv, hmod, twoPow_succ, ← Nat.mul_assoc]
    exact Nat.mul_lt_mul_of_pos_right (by omega) (twoPow_pos _)

theorem units_lt_units {a b : Nat} (h : a < b) : units a < units b := by
  induction b with
  | zero => omega
  | succ b ih =>
      by_cases hab : a = b
      · subst hab
        exact units_lt_succ a
      · exact Nat.lt_trans (ih (by omega)) (units_lt_succ b)

theorem units_pos {rank : Nat} (h : 0 < rank) : 0 < units rank := by
  have hzero : units 0 = 0 := rfl
  rw [← hzero]
  exact units_lt_units h

/-- The leading bit of a magnitude above the subnormal ones. -/
theorem log2_units {rank : Nat} (h : fractions ≤ rank) :
    (units rank).log2 = 52 + (rank / fractions - 1) := by
  have hpos : 0 < fractions := twoPow_pos 52
  have hmod : rank % fractions < fractions := Nat.mod_lt rank hpos
  have hsplit : twoPow (52 + (rank / fractions - 1))
      = fractions * twoPow (rank / fractions - 1) := twoPow_add 52 _
  refine log2_eq_of_le_of_lt ?_ ?_ <;> rw [hsplit, units_of_le h]
  · exact Nat.mul_le_mul_right _ (by omega)
  · rw [← Nat.mul_assoc]
    exact Nat.mul_lt_mul_of_pos_right (by omega) (twoPow_pos _)

/-- Every finite magnitude is its own rounding. -/
theorem nearestRank_units (rank : Nat) : nearestRank (units rank) 1 = rank := by
  unfold nearestRank
  simp only [Nat.div_one, shiftLeft_eq_mul, Nat.one_mul]
  by_cases h : rank < fractions
  · have hlog : (units rank).log2 - 52 = 0 := by
      rw [units_of_lt h]
      have hle : rank.log2 ≤ 52 := log2_lt_of_lt (Nat.lt_trans h (by decide))
      omega
    rw [hlog, units_of_lt h, twoPow_zero, Nat.zero_mul, Nat.zero_add]
    simpa using roundDiv_mul_self .toEven rank Nat.one_pos
  · have hle : fractions ≤ rank := Nat.not_lt.1 h
    have hlog : (units rank).log2 - 52 = rank / fractions - 1 := by
      rw [log2_units hle]
      omega
    rw [hlog, units_of_le hle, roundDiv_mul_self .toEven _ (twoPow_pos _)]
    rw [fractions_eq] at hle ⊢
    omega

/-- A number is determined by its bit pattern. -/
theorem ofBits_toBits (x : Binary64) : ofBits x.toBits = x := by
  cases x with
  | nan => decide
  | infinite negative => cases negative <;> decide
  | finite negative rank =>
      have hlimit : rankLimit < signBit := by decide
      have hrank := rank.isLt
      have hpos : 0 < signBit := twoPow_pos 63
      have hmod : rank.val % signBit = rank.val := Nat.mod_eq_of_lt (by omega)
      have hdiv : rank.val / signBit = 0 := Nat.div_eq_of_lt (by omega)
      cases negative with
      | false => simp [ofBits, toBits, hmod, hdiv, hrank]
      | true =>
          have hmore : (signBit + rank.val) / signBit = 1 := by
            rw [Nat.add_div_left _ hpos, hdiv]
          simp [ofBits, toBits, hmore, hmod, hrank]

end Binary64

end Reckoner
