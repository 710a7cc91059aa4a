import Reckoner.Binary64.Arithmetic

/-!
# Powers of binary64 numbers

The special cases are decided here by the rules of IEEE 754 for `pow`. The power of two finite
numbers is the machine's, reached through the bit pattern: it is the one operation of the library
whose rounding is not specified by the standard, and so the one that is not computed exactly.
-/

namespace Reckoner.Binary64

/-- The machine's double with the same bits. -/
def toFloat (x : Binary64) : Float := Float.ofBits (UInt64.ofNat x.toBits)

/-- The number with the bits of a machine double. -/
def ofFloat (x : Float) : Binary64 := ofBits x.toBits.toNat

/-- A whole number that two does not divide. -/
def isOdd : Binary64 → Bool
  | finite _ rank => units rank.val % (2 * unitsInOne) == unitsInOne
  | _ => false

/-- `base` raised to `exponent`. -/
def pow (base exponent : Binary64) : Binary64 :=
  match base, exponent with
  | finite _ _, finite _ _ => ofFloat (base.toFloat.pow exponent.toFloat)
  | nan, _ => if exponent.isZero then ofNat 1 else nan
  | _, nan => if base.equals (ofNat 1) then ofNat 1 else nan
  | infinite negative, _ =>
      if exponent.isZero then ofNat 1
      else if (zero false).lt exponent then infinite (negative && exponent.isOdd)
      else zero (negative && exponent.isOdd)
  | finite _ _, infinite negative =>
      if base.abs.equals (ofNat 1) then ofNat 1
      else if negative == base.abs.lt (ofNat 1) then infinite false
      else zero false

end Reckoner.Binary64
