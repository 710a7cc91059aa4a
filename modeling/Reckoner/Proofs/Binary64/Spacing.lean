import Mathlib.Tactic.Ring
import Reckoner.Binary64.Basic

/-!
# The spacing of binary64 magnitudes

The magnitudes of one binade are evenly spaced, and the spacing doubles from each binade to the
next. This module states the laws of the spacing that rounding needs: it grows with the rank, and
compared with the magnitude it is neither too wide nor, above the subnormal magnitudes, too narrow.

## Main results

* `units_succ`: the next magnitude is one spacing further.
* `units_succ_le`, `spacing_le`: the spacing relative to the magnitude.
* `exists_units_eq`: every whole number of at most 53 bits, scaled by a power of two, is a
  magnitude.
-/

namespace Reckoner

theorem twoPow_eq_pow (k : Nat) : twoPow k = 2 ^ k := Nat.one_shiftLeft k

theorem tenPow_eq_pow (k : Nat) : tenPow k = 10 ^ k := rfl

theorem twoPow_le {j k : Nat} (h : j ≤ k) : twoPow j ≤ twoPow k := by
  simp only [twoPow_eq_pow]
  exact Nat.pow_le_pow_right (by decide) h

theorem twoPow_dvd_of_le {j k : Nat} (h : twoPow j ≤ twoPow k) : twoPow j ∣ twoPow k := by
  simp only [twoPow_eq_pow] at h ⊢
  exact Nat.pow_dvd_pow 2 ((Nat.pow_le_pow_iff_right (by decide)).1 h)

theorem tenPow_le {j k : Nat} (h : j ≤ k) : tenPow j ≤ tenPow k :=
  Nat.pow_le_pow_right (by decide) h

namespace Binary64

theorem units_le_units {a b : Nat} (h : a ≤ b) : units a ≤ units b := by
  rcases Nat.lt_or_eq_of_le h with hlt | rfl
  · exact (units_lt_units hlt).le
  · exact le_rfl

theorem lt_of_units_lt {a b : Nat} (h : units a < units b) : a < b := by
  by_contra hle
  exact absurd (units_le_units (Nat.le_of_not_lt hle)) (Nat.not_le.2 h)

/-- The units of the magnitudes that share a binade, its upper end included. -/
theorem units_eq_mul {k m : Nat} (hm : m ≤ 2 * fractions) (hk : k = 0 ∨ fractions ≤ m) :
    units (k * fractions + m) = m * twoPow k := by
  rw [fractions_eq] at *
  by_cases hlow : m < 4503599627370496
  · obtain rfl : k = 0 := by omega
    rw [Nat.zero_mul, Nat.zero_add, units_of_lt (by rw [fractions_eq]; exact hlow), twoPow_zero,
      Nat.mul_one]
  rw [units_of_le (by rw [fractions_eq]; omega), fractions_eq]
  by_cases hend : m < 2 * 4503599627370496
  · have hmod : (k * 4503599627370496 + m) % 4503599627370496 + 4503599627370496 = m := by omega
    have hdiv : (k * 4503599627370496 + m) / 4503599627370496 - 1 = k := by omega
    rw [hmod, hdiv]
  · obtain rfl : m = 2 * 4503599627370496 := by omega
    have hmod : (k * 4503599627370496 + 2 * 4503599627370496) % 4503599627370496 = 0 := by omega
    have hdiv : (k * 4503599627370496 + 2 * 4503599627370496) / 4503599627370496 - 1 = k + 1 := by
      omega
    rw [hmod, hdiv, twoPow_succ]
    ring

/-- The distance from one magnitude to the next. -/
def spacing (rank : Nat) : Nat := twoPow (rank / fractions - 1)

theorem units_succ (rank : Nat) : units (rank + 1) = units rank + spacing rank := by
  have hpos : 0 < fractions := twoPow_pos 52
  by_cases hlow : rank < fractions
  · have hrank : units rank = rank := units_of_lt hlow
    have hdiv : rank / fractions = 0 := Nat.div_eq_of_lt hlow
    have hnext := units_eq_mul (k := 0) (m := rank + 1) (by omega) (Or.inl rfl)
    rw [Nat.zero_mul, Nat.zero_add, twoPow_zero, Nat.mul_one] at hnext
    rw [hnext, hrank, spacing, hdiv, twoPow_zero]
  · have hmod := Nat.mod_lt rank hpos
    have hsplit : rank = (rank / fractions - 1) * fractions + (rank % fractions + fractions) := by
      rw [fractions_eq] at *
      omega
    have hthis := units_eq_mul (k := rank / fractions - 1) (m := rank % fractions + fractions)
      (by omega) (Or.inr (by omega))
    have hnext := units_eq_mul (k := rank / fractions - 1) (m := rank % fractions + fractions + 1)
      (by omega) (Or.inr (by omega))
    rw [← Nat.add_assoc, ← hsplit] at hnext
    rw [← hsplit] at hthis
    rw [hnext, hthis, spacing]
    ring

theorem spacing_pos (rank : Nat) : 0 < spacing rank := twoPow_pos _

theorem spacing_mono {a b : Nat} (h : a ≤ b) : spacing a ≤ spacing b :=
  twoPow_le (Nat.sub_le_sub_right (Nat.div_le_div_right h) 1)

/-- The spacing is the same on both sides of a magnitude, unless it is a power of two. -/
theorem spacing_eq_or (before : Nat) :
    spacing before = spacing (before + 1) ∨ ∃ k, units (before + 1) = twoPow k := by
  have hpos : 0 < fractions := twoPow_pos 52
  by_cases hedge : (before + 1) % fractions = 0
  · right
    have hle : fractions ≤ before + 1 := Nat.le_of_dvd (by omega) (Nat.dvd_of_mod_eq_zero hedge)
    refine ⟨52 + ((before + 1) / fractions - 1), ?_⟩
    rw [units_of_le hle, hedge, Nat.zero_add, twoPow_add]
    rfl
  · left
    have hdiv : before / fractions = (before + 1) / fractions := by
      rw [fractions_eq] at *
      omega
    rw [spacing, spacing, hdiv]

/-- A magnitude is at most `2^53` times as large as the distance to the one before it. -/
theorem units_succ_le (rank : Nat) : units (rank + 1) ≤ twoPow 53 * spacing rank := by
  have hpos : 0 < fractions := twoPow_pos 52
  have hmod := Nat.mod_lt rank hpos
  have hdouble : twoPow 53 = 2 * fractions := rfl
  rw [units_succ, spacing, hdouble]
  by_cases hlow : rank < fractions
  · have hdiv : rank / fractions = 0 := Nat.div_eq_of_lt hlow
    rw [units_of_lt hlow, hdiv, twoPow_zero]
    omega
  · rw [units_of_le (by omega)]
    calc (rank % fractions + fractions) * twoPow (rank / fractions - 1)
          + twoPow (rank / fractions - 1)
        = (rank % fractions + fractions + 1) * twoPow (rank / fractions - 1) := by ring
      _ ≤ 2 * fractions * twoPow (rank / fractions - 1) := Nat.mul_le_mul_right _ (by omega)

/-- Above the subnormal magnitudes the next one is not far. -/
theorem spacing_le {rank : Nat} (h : fractions ≤ rank) : fractions * spacing rank ≤ units rank := by
  rw [units_of_le h, spacing]
  exact Nat.mul_le_mul_right _ (by omega)

theorem spacing_dvd_units (rank : Nat) : spacing rank ∣ units rank := by
  by_cases hlow : rank < fractions
  · have hdiv : rank / fractions = 0 := Nat.div_eq_of_lt hlow
    rw [spacing, hdiv, twoPow_zero]
    exact Nat.one_dvd _
  · rw [units_of_le (by omega), spacing]
    exact Nat.dvd_mul_left _ _

/-- Every whole number of at most 53 bits, scaled by a power of two, is a magnitude. -/
theorem exists_units_eq {m : Nat} (h : m ≤ 2 * fractions) (k : Nat) :
    ∃ rank, units rank = m * twoPow k := by
  induction k generalizing m with
  | zero =>
      refine ⟨m, ?_⟩
      have hunits := units_eq_mul (k := 0) h (Or.inl rfl)
      rwa [Nat.zero_mul, Nat.zero_add] at hunits
  | succ k ih =>
      by_cases hlow : m < fractions
      · obtain ⟨rank, hrank⟩ := ih (m := 2 * m) (by omega)
        refine ⟨rank, ?_⟩
        rw [hrank, twoPow_succ]
        ring
      · exact ⟨(k + 1) * fractions + m, units_eq_mul h (Or.inr (by omega))⟩

end Binary64
end Reckoner
