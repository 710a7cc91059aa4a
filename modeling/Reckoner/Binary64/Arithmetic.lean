import Reckoner.Binary64.Basic

/-!
# Sums, products and quotients of binary64 numbers

Each operation computes its exact result in units of `2^-1074` and rounds it once. The rules for
zeros, infinities and NaN are those of IEEE 754 in the default rounding direction.
-/

namespace Reckoner.Binary64

/-- The number with the opposite sign. -/
def neg : Binary64 → Binary64
  | nan => nan
  | infinite negative => infinite (!negative)
  | finite negative rank => finite (!negative) rank

/-- The number without its sign. -/
def abs : Binary64 → Binary64
  | nan => nan
  | infinite _ => infinite false
  | finite _ rank => finite false rank

/-- The units of a magnitude, with a sign. -/
def signedUnits (negative : Bool) (rank : Nat) : Int :=
  if negative then -(units rank : Int) else units rank

/-- The sum. Opposite magnitudes, and zeros of different sign, add up to the positive zero. -/
def add : Binary64 → Binary64 → Binary64
  | nan, _ => nan
  | _, nan => nan
  | infinite a, infinite b => if a = b then infinite a else nan
  | infinite a, finite _ _ => infinite a
  | finite _ _, infinite b => infinite b
  | finite a r, finite b s =>
      let sum := signedUnits a r.val + signedUnits b s.val
      if sum = 0 then zero (a && b) else nearest (sum < 0) sum.natAbs 1

/-- The difference: the sum with the opposite number. -/
def sub (x y : Binary64) : Binary64 := x.add y.neg

/-- The product. -/
def mul : Binary64 → Binary64 → Binary64
  | nan, _ => nan
  | _, nan => nan
  | infinite a, infinite b => infinite (a ^^ b)
  | infinite a, finite b s => if s.val = 0 then nan else infinite (a ^^ b)
  | finite a r, infinite b => if r.val = 0 then nan else infinite (a ^^ b)
  | finite a r, finite b s => nearest (a ^^ b) (units r.val * units s.val) unitsInOne

/-- The quotient. -/
def div : Binary64 → Binary64 → Binary64
  | nan, _ => nan
  | _, nan => nan
  | infinite _, infinite _ => nan
  | infinite a, finite b _ => infinite (a ^^ b)
  | finite a _, infinite b => zero (a ^^ b)
  | finite a r, finite b s =>
      if s.val = 0 then (if r.val = 0 then nan else infinite (a ^^ b))
      else nearest (a ^^ b) (units r.val * unitsInOne) (units s.val)

/-! ## Laws -/

@[simp] theorem neg_neg (x : Binary64) : x.neg.neg = x := by
  cases x <;> simp [neg]

@[simp] theorem isFinite_neg (x : Binary64) : x.neg.isFinite = x.isFinite := by
  cases x <;> rfl

theorem nearest_neg (negative : Bool) (num den : Nat) :
    (nearest negative num den).neg = nearest (!negative) num den := by
  unfold nearest
  split <;> rfl

end Reckoner.Binary64
