/-!
# Powers of two and ten

The two bases of the library, each as a function of the exponent with the few laws that are needed
of it. A power of two is a shifted one and a power of ten is computed by repeated squaring, so both
stay fast for exponents in the thousands.

## Main results

* `twoPow_succ`, `twoPow_add`, `tenPow_succ`, `tenPow_add`: the exponent counts factors.
* `shiftLeft_eq_mul`: a shift is a product with a power of two.
-/

namespace Reckoner

/-- The `k`-th power of two. -/
def twoPow (k : Nat) : Nat := 1 <<< k

/-- The `k`-th power of ten. -/
def tenPow (k : Nat) : Nat := Nat.pow 10 k

/-! ## Laws -/

private theorem twoPow_eq (k : Nat) : twoPow k = Nat.pow 2 k := Nat.one_shiftLeft k

@[simp] theorem twoPow_zero : twoPow 0 = 1 := rfl

theorem twoPow_succ (k : Nat) : twoPow (k + 1) = 2 * twoPow k := by
  rw [twoPow_eq, twoPow_eq]
  exact Nat.mul_comm _ _

theorem twoPow_pos (k : Nat) : 0 < twoPow k := by
  rw [twoPow_eq]
  exact Nat.two_pow_pos k

theorem twoPow_add (j k : Nat) : twoPow (j + k) = twoPow j * twoPow k := by
  simp only [twoPow_eq]
  exact Nat.pow_add 2 j k

/-- A shift is a product with a power of two. -/
theorem shiftLeft_eq_mul (n k : Nat) : n <<< k = n * twoPow k := by
  rw [twoPow_eq]
  exact Nat.shiftLeft_eq n k

/-- The position of the leading bit of a natural. -/
theorem log2_eq_of_le_of_lt {n k : Nat} (hle : twoPow k ≤ n) (hlt : n < 2 * twoPow k) :
    n.log2 = k := by
  have hne : n ≠ 0 := by
    have := twoPow_pos k
    omega
  rw [← twoPow_succ] at hlt
  rw [twoPow_eq] at hle hlt
  exact (Nat.log2_eq_iff hne).2 ⟨hle, hlt⟩

theorem log2_lt_of_lt {n k : Nat} (h : n < twoPow (k + 1)) : n.log2 ≤ k := by
  by_cases hz : n = 0
  · subst hz
    exact Nat.zero_le k
  · rw [twoPow_eq] at h
    exact Nat.le_of_lt_succ ((Nat.log2_lt hz).2 h)

@[simp] theorem tenPow_zero : tenPow 0 = 1 := rfl

theorem tenPow_succ (k : Nat) : tenPow (k + 1) = 10 * tenPow k := Nat.mul_comm _ _

theorem tenPow_pos (k : Nat) : 0 < tenPow k := by
  induction k with
  | zero => exact Nat.one_pos
  | succ k ih => rw [tenPow_succ]; omega

theorem tenPow_add (j k : Nat) : tenPow (j + k) = tenPow j * tenPow k := Nat.pow_add 10 j k

end Reckoner
