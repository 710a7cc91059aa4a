import Mathlib.Algebra.Order.Field.Power
import Mathlib.Tactic.FieldSimp
import Mathlib.Tactic.Positivity
import Reckoner.Decimal.Basic
import Reckoner.Proofs.Binary64.Nearest

/-!
# The value of a decimal

A decimal stands for a rational number, and reading it as a binary64 number rounds that number once.
How it is spelled, with zeros at its end or with a greater exponent, makes no difference, and the
powers of ten that reading cuts off never decide the answer.

## Main results

* `toBinary64_of_readsAs`: a decimal is read as the magnitude that its value is rounded to.
* `value_stripZeros`, `le_exponent_stripZeros`: without the zeros at its end a decimal has the same
  value, and the greatest exponent that the value admits.
-/

namespace Reckoner

namespace Decimal

open Binary64

/-- The number that a decimal stands for. -/
def value (d : Decimal) : ℚ := d.digits * 10 ^ d.exponent

/-- The number is rounded to the magnitude of this rank. -/
def ReadsAs (v : ℚ) (rank : Nat) : Prop := IsNearest (v * unitsInOne) rank

/-- A decimal lies between the powers of ten of its leading digit and of the place before it. -/
theorem value_lt (d : Decimal) : d.value < 10 ^ (d.leadingExponent + 1) := by
  have hdigits : (d.digits : ℚ) < 10 ^ decimalLength d.digits := by
    exact_mod_cast lt_tenPow_decimalLength d.digits
  have hpower : (0 : ℚ) < 10 ^ d.exponent := by positivity
  have hsplit : d.leadingExponent + 1 = decimalLength d.digits + d.exponent := by
    rw [leadingExponent]
    omega
  rw [hsplit, zpow_add₀ (by norm_num), zpow_natCast]
  exact mul_lt_mul_of_pos_right hdigits hpower

theorem le_value {d : Decimal} (h : d.digits ≠ 0) : 10 ^ d.leadingExponent ≤ d.value := by
  have hdigits : (10 : ℚ) ^ (decimalLength d.digits - 1) ≤ d.digits := by
    exact_mod_cast tenPow_le_of_decimalLength (Nat.pos_of_ne_zero h)
  have hpower : (0 : ℚ) < 10 ^ d.exponent := by positivity
  have hpos := decimalLength_pos d.digits
  have hsplit : d.leadingExponent = (decimalLength d.digits - 1 : ℕ) + d.exponent := by
    rw [leadingExponent]
    omega
  rw [hsplit, zpow_add₀ (by norm_num), zpow_natCast]
  exact mul_le_mul_of_nonneg_right hdigits hpower.le

/-! ## Rounding numbers -/

theorem cast_unitsInOne_pos : (0 : ℚ) < unitsInOne := by exact_mod_cast unitsInOne_pos

theorem cast_tenPow_pos (k : Nat) : (0 : ℚ) < tenPow k := by exact_mod_cast tenPow_pos k

theorem ReadsAs.mono {v w : ℚ} {a b : Nat} (ha : ReadsAs v a) (hb : ReadsAs w b) (h : v ≤ w) :
    a ≤ b :=
  IsNearest.mono ha hb (mul_le_mul_of_nonneg_right h cast_unitsInOne_pos.le)

theorem ReadsAs.eq {v : ℚ} {a b : Nat} (ha : ReadsAs v a) (hb : ReadsAs v b) : a = b :=
  IsNearest.eq ha hb

theorem ReadsAs.of_between {u v w : ℚ} {rank : Nat} (hu : ReadsAs u rank) (hw : ReadsAs w rank)
    (huv : u ≤ v) (hvw : v ≤ w) : ReadsAs v rank :=
  IsNearest.of_between hu hw (mul_le_mul_of_nonneg_right huv cast_unitsInOne_pos.le)
    (mul_le_mul_of_nonneg_right hvw cast_unitsInOne_pos.le)

/-- A magnitude as a number. -/
def magnitude (rank : Nat) : ℚ := units rank / unitsInOne

theorem magnitude_mul_unitsInOne (rank : Nat) : magnitude rank * unitsInOne = units rank :=
  div_mul_cancel₀ _ cast_unitsInOne_pos.ne'

theorem readsAs_magnitude (rank : Nat) : ReadsAs (magnitude rank) rank := by
  rw [ReadsAs, magnitude_mul_unitsInOne]
  exact isNearest_units rank

theorem magnitude_eq_of_units {rank n : Nat} (h : units rank = n * unitsInOne) :
    magnitude rank = n := by
  rw [magnitude, h, Nat.cast_mul, mul_div_cancel_right₀ _ cast_unitsInOne_pos.ne']

theorem units_eq_of_magnitude {rank n : Nat} (h : magnitude rank = n) :
    units rank = n * unitsInOne := by
  have hunits := magnitude_mul_unitsInOne rank
  rw [h] at hunits
  exact_mod_cast hunits.symm

theorem magnitude_nonneg (rank : Nat) : 0 ≤ magnitude rank :=
  div_nonneg (Nat.cast_nonneg _) (Nat.cast_nonneg _)

theorem magnitude_zero : magnitude 0 = 0 := zero_div _

theorem magnitude_pos {rank : Nat} (h : 0 < rank) : 0 < magnitude rank :=
  div_pos (by exact_mod_cast units_pos h) cast_unitsInOne_pos

theorem magnitude_mono {a b : Nat} (h : a ≤ b) : magnitude a ≤ magnitude b :=
  div_le_div_of_nonneg_right (cast_units_le h) cast_unitsInOne_pos.le

theorem magnitude_lt_iff {rank n : Nat} : magnitude rank < n ↔ units rank < n * unitsInOne := by
  rw [magnitude, div_lt_iff₀ cast_unitsInOne_pos]
  exact_mod_cast Iff.rfl

/-- Up to 53 bits, with a point among them, are a magnitude. -/
theorem exists_magnitude_eq {m j : Nat} (hm : m ≤ 2 * fractions) (hj : j ≤ 1074) :
    ∃ rank, magnitude rank = m / twoPow j := by
  obtain ⟨rank, hrank⟩ := exists_units_eq hm (1074 - j)
  have hone : unitsInOne = twoPow (1074 - j) * twoPow j := by
    rw [← twoPow_add, Nat.sub_add_cancel hj]
    rfl
  have hbit : (twoPow (1074 - j) : ℚ) ≠ 0 := by exact_mod_cast (twoPow_pos _).ne'
  refine ⟨rank, ?_⟩
  rw [magnitude, hrank, hone, Nat.cast_mul, Nat.cast_mul, mul_comm, mul_div_mul_left _ _ hbit]

theorem exists_magnitude_eq_natCast {m : Nat} (hm : m ≤ 2 * fractions) :
    ∃ rank, magnitude rank = m := by
  obtain ⟨rank, hrank⟩ := exists_magnitude_eq hm (Nat.zero_le _)
  exact ⟨rank, by rw [hrank, twoPow_zero, Nat.cast_one, div_one]⟩

/-- A number is not rounded down beyond a magnitude. -/
theorem ReadsAs.magnitude_ge {v : ℚ} {rank other : Nat} (h : ReadsAs v rank)
    (hother : magnitude other ≤ v) : magnitude other ≤ magnitude rank :=
  magnitude_mono ((readsAs_magnitude other).mono h hother)

/-- A number is not rounded up beyond a magnitude. -/
theorem ReadsAs.magnitude_le {v : ℚ} {rank other : Nat} (h : ReadsAs v rank)
    (hother : v ≤ magnitude other) : magnitude rank ≤ magnitude other :=
  magnitude_mono (h.mono (readsAs_magnitude other) hother)

/-- A number is below a whole one of few bits if the magnitude that it is rounded to is. -/
theorem ReadsAs.lt_natCast {v : ℚ} {rank m : Nat} (h : ReadsAs v rank) (hm : m ≤ 2 * fractions)
    (hlt : magnitude rank < m) : v < m := by
  obtain ⟨whole, hwhole⟩ := exists_magnitude_eq_natCast hm
  by_contra hle
  have := h.magnitude_ge (hwhole.trans_le (le_of_not_gt hle))
  linarith

/-- No magnitude is nearer to a number than the one that it is rounded to. -/
theorem ReadsAs.abs_sub_le {v : ℚ} {rank : Nat} (h : ReadsAs v rank) (other : Nat) :
    |v - magnitude rank| ≤ |v - magnitude other| := by
  have hunits := IsNearest.abs_sub_le h other
  rw [← magnitude_mul_unitsInOne, ← magnitude_mul_unitsInOne other, ← sub_mul, ← sub_mul, abs_mul,
    abs_mul] at hunits
  exact le_of_mul_le_mul_right hunits (abs_pos.2 cast_unitsInOne_pos.ne')

/-- Above the subnormal magnitudes a number is within `2^-53` of the magnitude that it is rounded
to, relative to that. -/
theorem ReadsAs.abs_sub_mul_le {v : ℚ} {rank : Nat} (hnormal : fractions ≤ rank)
    (h : ReadsAs v rank) : twoPow 53 * |magnitude rank - v| ≤ magnitude rank := by
  have hunits := IsNearest.abs_sub_mul_le hnormal h
  rw [← magnitude_mul_unitsInOne, ← sub_mul, abs_mul, abs_of_pos cast_unitsInOne_pos,
    ← mul_assoc] at hunits
  exact le_of_mul_le_mul_right hunits cast_unitsInOne_pos

/-- Between two magnitudes at the same distance, what is not farther from the magnitude in the
middle than some number that is rounded to it is rounded to it as well. -/
theorem ReadsAs.of_abs_sub_le {v w : ℚ} {before : Nat}
    (hspacing : spacing before = spacing (before + 1)) (h : ReadsAs v (before + 1))
    (hle : |w - magnitude (before + 1)| ≤ |v - magnitude (before + 1)|) :
    ReadsAs w (before + 1) := by
  refine IsNearest.of_abs_sub_le hspacing h ?_
  rw [← magnitude_mul_unitsInOne, ← sub_mul, ← sub_mul, abs_mul, abs_mul]
  exact mul_le_mul_of_nonneg_right hle (abs_nonneg _)

theorem readsAs_nearestRank (num : Nat) {den : Nat} (hden : 0 < den) :
    ReadsAs (num / den) (nearestRank (num * unitsInOne) den) := by
  have h := isNearest_nearestRank (num * unitsInOne) hden
  rw [Nat.cast_mul, mul_div_right_comm] at h
  exact h

theorem nearestRank_eq_of_readsAs {num den rank : Nat} (hden : 0 < den)
    (h : ReadsAs (num / den) rank) : nearestRank (num * unitsInOne) den = rank :=
  (readsAs_nearestRank num hden).eq h

theorem lt_rankLimit_of_readsAs {v : ℚ} {rank : Nat} (h : ReadsAs v rank)
    (hv : v ≤ tenPow 300) : rank < rankLimit := by
  have hunits : units (2046 * fractions) = twoPow 1023 * unitsInOne := by decide +kernel
  have hbound : (tenPow 300 : ℚ) ≤ twoPow 1023 := by
    exact_mod_cast (by decide +kernel : tenPow 300 ≤ twoPow 1023)
  have hlast := readsAs_magnitude (2046 * fractions)
  rw [magnitude_eq_of_units hunits] at hlast
  exact Nat.lt_of_le_of_lt (h.mono hlast (hv.trans hbound)) (by decide)

/-- From `10^310` on everything is beyond the finite range. -/
theorem rankLimit_le_of_readsAs {v : ℚ} {rank : Nat} (h : ReadsAs v rank)
    (hv : (tenPow 310 : ℚ) ≤ v) : rankLimit ≤ rank := by
  have hunits : units rankLimit = twoPow 1024 * unitsInOne := by decide +kernel
  have hbound : (twoPow 1024 : ℚ) ≤ tenPow 310 := by
    exact_mod_cast (by decide +kernel : twoPow 1024 ≤ tenPow 310)
  have hlimit := readsAs_magnitude rankLimit
  rw [magnitude_eq_of_units hunits] at hlimit
  exact hlimit.mono h (hbound.trans hv)

/-- Up to `10^-330` everything is rounded to zero. -/
theorem readsAs_zero_of_le {v : ℚ} (hpos : 0 ≤ v) (hv : v * tenPow 330 ≤ 1) : ReadsAs v 0 := by
  have hbound : (2 * unitsInOne : ℚ) < tenPow 330 := by
    exact_mod_cast (by decide +kernel : 2 * unitsInOne < tenPow 330)
  have hnext : (units 0 : ℚ) + units (0 + 1) = 1 := by
    exact_mod_cast (by decide : units 0 + units (0 + 1) = 1)
  have hsmall : 2 * (v * unitsInOne) ≤ 1 := by
    have hle := mul_le_mul_of_nonneg_left hbound.le hpos
    linarith
  refine ⟨fun before h => absurd h (Nat.succ_ne_zero before), ?_,
    fun before h => absurd h (Nat.succ_ne_zero before), fun _ => rfl⟩
  rwa [hnext]

theorem readsAs_zero : ReadsAs 0 0 := readsAs_zero_of_le le_rfl (by norm_num)

/-! ## Reading decimals -/

/-- A number that a large power of ten divides is beyond the finite range. -/
theorem rankLimit_le_of_far {digits e rank : Nat} (hdigits : 0 < digits) (he : 310 ≤ e)
    (h : ReadsAs ((digits : ℚ) * 10 ^ e) rank) : rankLimit ≤ rank := by
  have hlarge : tenPow 310 ≤ digits * 10 ^ e :=
    calc tenPow 310 ≤ tenPow e := tenPow_le he
      _ ≤ digits * 10 ^ e := Nat.le_mul_of_pos_left _ hdigits
  exact rankLimit_le_of_readsAs h (by exact_mod_cast hlarge)

/-- A number far below the smallest magnitude is read as zero. -/
theorem readsAs_zero_of_far (digits : Nat) {k : Nat} (hk : decimalLength digits + 330 ≤ k) :
    ReadsAs ((digits : ℚ) / 10 ^ k) 0 := by
  refine readsAs_zero_of_le (by positivity) ?_
  have hle : digits * tenPow 330 ≤ 10 ^ k :=
    calc digits * tenPow 330
        ≤ tenPow (decimalLength digits) * tenPow 330 :=
          Nat.mul_le_mul_right _ (lt_tenPow_decimalLength digits).le
      _ = tenPow (decimalLength digits + 330) := (tenPow_add _ _).symm
      _ ≤ 10 ^ k := tenPow_le hk
  rw [div_mul_eq_mul_div, div_le_one (by positivity)]
  exact_mod_cast hle

/-- A decimal is read as the magnitude that its value is rounded to. -/
theorem toBinary64_of_readsAs {d : Decimal} {rank : Nat} (h : ReadsAs d.value rank)
    (hlimit : rank < rankLimit) (negative : Bool) :
    d.toBinary64 negative = .finite negative ⟨rank, hlimit⟩ := by
  have hnearest : ∀ num den, nearestRank num den = rank →
      Binary64.nearest negative num den = .finite negative ⟨rank, hlimit⟩ := by
    rintro num den rfl
    rw [nearest, dif_pos hlimit]
  obtain ⟨digits, exponent⟩ := d
  cases exponent with
  | ofNat e =>
      refine hnearest _ _ (nearestRank_eq_of_readsAs Nat.one_pos ?_)
      have hvalue : value ⟨digits, .ofNat e⟩ = digits * 10 ^ e := by
        rw [value, Int.ofNat_eq_natCast, zpow_natCast]
      rw [hvalue] at h
      by_cases hcut : e ≤ 310 ∨ digits = 0
      · have hsame : (((digits * tenPow (min e 310) : ℕ) : ℚ) / ((1 : ℕ) : ℚ)) =
            digits * 10 ^ e := by
          rw [tenPow_eq_pow]
          rcases hcut with hle | rfl
          · rw [Nat.min_eq_left hle]
            push_cast
            rw [div_one]
          · simp
        rw [hsame]
        exact h
      · -- The exponent is cut off, but the number is beyond the finite range.
        have := rankLimit_le_of_far (by omega) (by omega) h
        omega
  | negSucc e =>
      refine hnearest _ _ (nearestRank_eq_of_readsAs (tenPow_pos _) ?_)
      have hvalue : value ⟨digits, .negSucc e⟩ = digits / 10 ^ (e + 1) := by
        rw [value, zpow_negSucc, div_eq_mul_inv]
      rw [hvalue] at h
      rw [tenPow_eq_pow]
      push_cast
      by_cases hcut : e + 1 ≤ decimalLength digits + 330
      · rw [Nat.min_eq_left hcut]
        exact h
      · -- The exponent is cut off, but the number is rounded to zero with either of the two.
        rw [Nat.min_eq_right (by omega)]
        rw [h.eq (readsAs_zero_of_far digits (by omega))]
        exact readsAs_zero_of_far digits le_rfl

/-! ## Zeros at the end -/

theorem value_stripZeros (d : Decimal) : (stripZeros d).value = d.value := by
  fun_induction stripZeros d with
  | case1 d h ih =>
      have hdigits : (d.digits : ℚ) = (d.digits / 10 : ℕ) * 10 := by
        exact_mod_cast (by omega : d.digits = d.digits / 10 * 10)
      rw [ih, value, value, hdigits, zpow_add_one₀ (by norm_num)]
      ring
  | case2 d h => rfl

/-- A number whose value is a multiple of a power of ten. -/
def OnGrid (exponent : Int) (v : ℚ) : Prop := ∃ n : ℕ, v = n * 10 ^ exponent

theorem OnGrid.of_le {e f : Int} {v : ℚ} (h : OnGrid f v) (hef : e ≤ f) : OnGrid e v := by
  obtain ⟨n, rfl⟩ := h
  obtain ⟨k, hk⟩ := Int.eq_ofNat_of_zero_le (Int.sub_nonneg.2 hef)
  refine ⟨n * 10 ^ k, ?_⟩
  have hsplit : f = k + e := by omega
  rw [hsplit, zpow_add₀ (by norm_num), zpow_natCast]
  push_cast
  ring

/-- Stripped of the zeros at its end a decimal has the greatest exponent that its value admits. -/
theorem le_exponent_stripZeros {d : Decimal} {e : Int} (hne : d.digits ≠ 0)
    (h : OnGrid e d.value) : e ≤ (stripZeros d).exponent := by
  by_contra hlt
  obtain ⟨n, hn⟩ := h
  have hmod := digits_stripZeros_mod d hne
  rw [← value_stripZeros, value] at hn
  obtain ⟨k, hk⟩ := Int.eq_ofNat_of_zero_le (by omega : 0 ≤ e - (stripZeros d).exponent - 1)
  have hsplit : e = ((k + 1 : ℕ) : ℤ) + (stripZeros d).exponent := by push_cast; omega
  rw [hsplit, zpow_add₀ (by norm_num), zpow_natCast, ← mul_assoc] at hn
  have hcancel := mul_right_cancel₀ (zpow_ne_zero _ (by norm_num)) hn
  have hdigits : (stripZeros d).digits = n * 10 ^ (k + 1) := by exact_mod_cast hcancel
  rw [hdigits, pow_succ, ← mul_assoc, Nat.mul_mod_left] at hmod
  exact hmod rfl

end Decimal

end Reckoner
