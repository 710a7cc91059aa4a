import Reckoner.Binary64.Basic
import Reckoner.Decimal.Digits

/-!
# Decimal numbers

A decimal is a whole number of digits and a power of ten. This module reads one as the nearest
binary64 number, and strips the zeros at its end.
-/

namespace Reckoner

/-- The number `digits * 10 ^ exponent`. -/
structure Decimal where
  digits : Nat
  exponent : Int
deriving DecidableEq, Repr

namespace Decimal

/--
The binary64 number nearest to a decimal, with the given sign.

Powers of ten that decide the answer whatever the digits are cut off, so that no exponent, however
large, makes the computation large: from `10 ^ 310` on every whole number is beyond the finite
range, and below `10 ^ -330` everything rounds to zero.
-/
def toBinary64 (negative : Bool) (d : Decimal) : Binary64 :=
  match d.exponent with
  | .ofNat e => .nearest negative (d.digits * tenPow (min e 310) * Binary64.unitsInOne) 1
  | .negSucc e =>
      .nearest negative (d.digits * Binary64.unitsInOne)
        (tenPow (min (e + 1) (decimalLength d.digits + 330)))

/-- The same number with no zero at the end of its digits; zero has the one digit it needs. -/
def stripZeros (d : Decimal) : Decimal :=
  if d.digits ≠ 0 ∧ d.digits % 10 = 0 then stripZeros ⟨d.digits / 10, d.exponent + 1⟩ else d
termination_by d.digits
decreasing_by omega

/-- The exponent of the leading digit. -/
def leadingExponent (d : Decimal) : Int := d.exponent + decimalLength d.digits - 1

theorem digits_stripZeros_mod (d : Decimal) (h : d.digits ≠ 0) :
    (stripZeros d).digits % 10 ≠ 0 := by
  fun_induction stripZeros d with
  | case1 d hd ih => exact ih (by simp only; omega)
  | case2 d hd => omega

end Decimal

end Reckoner
