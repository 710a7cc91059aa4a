import Mathlib.Algebra.Order.Field.Rat
import Mathlib.Data.Rat.Cast.Order
import Mathlib.Tactic.LinearCombination
import Mathlib.Tactic.Linarith
import Reckoner.Proofs.Binary64.Spacing

/-!
# Rounding to the nearest magnitude

What rounding to nearest means, without reference to how it is computed: a quotient is rounded to
the magnitude from which it is separated by no midpoint, and on a midpoint to the neighbour of even
rank. The rounding of `nearestRank` is the only one with this property, so whatever is known about
the place of a quotient on the line decides how it is rounded.

## Main results

* `isNearest_nearestRank`: the computed rounding is the nearest magnitude, ties to even.
* `IsNearest.mono`, `IsNearest.eq`: rounding keeps the order, and there is only one.
* `IsNearest.abs_sub_le`, `IsNearest.abs_sub_mul_le`: how near the rounded quotient is.
* `isNearest_of_lt_spacing`: a quotient near a magnitude is rounded to it.
-/

namespace Reckoner

namespace Binary64

/-- The quotient `q`, in units of `2^-1074`, is rounded to the magnitude of this rank: it lies
between the midpoints to the two neighbours, and on a midpoint only if the rank is even. -/
structure IsNearest (q : ℚ) (rank : Nat) : Prop where
  above : ∀ before, before + 1 = rank → (units before + units rank : ℚ) ≤ 2 * q
  below : 2 * q ≤ units rank + units (rank + 1)
  even_of_above : ∀ before, before + 1 = rank → 2 * q = units before + units rank → rank % 2 = 0
  even_of_below : 2 * q = units rank + units (rank + 1) → rank % 2 = 0

theorem cast_units_lt {a b : Nat} (h : a < b) : (units a : ℚ) < units b := by
  exact_mod_cast units_lt_units h

theorem cast_units_le {a b : Nat} (h : a ≤ b) : (units a : ℚ) ≤ units b := by
  exact_mod_cast units_le_units h

theorem cast_twoPow_53 : (twoPow 53 : ℚ) = 2 * fractions := by
  exact_mod_cast (rfl : twoPow 53 = 2 * fractions)

/-- Rounding keeps the order. -/
theorem IsNearest.mono {q r : ℚ} {a b : Nat} (ha : IsNearest q a) (hb : IsNearest r b)
    (h : q ≤ r) : a ≤ b := by
  by_contra hlt
  obtain ⟨before, rfl⟩ : ∃ before, before + 1 = a := ⟨a - 1, by omega⟩
  have habove := ha.above before rfl
  have hbelow := hb.below
  have hfirst := cast_units_le (show b ≤ before by omega)
  have hsecond := cast_units_le (show b + 1 ≤ before + 1 by omega)
  -- All of them are equal: `b` and `before` are the same rank, and both neighbours are even.
  have hsame : b = before := by
    by_contra hne
    have := cast_units_lt (show b < before by omega)
    linarith
  subst hsame
  have heven := ha.even_of_above b rfl (by linarith)
  have heven' := hb.even_of_below (by linarith)
  omega

/-- A quotient is rounded to one magnitude only. -/
theorem IsNearest.eq {q : ℚ} {a b : Nat} (ha : IsNearest q a) (hb : IsNearest q b) : a = b :=
  Nat.le_antisymm (ha.mono hb le_rfl) (hb.mono ha le_rfl)

/-- Every magnitude is its own rounding. -/
theorem isNearest_units (rank : Nat) : IsNearest (units rank) rank where
  above before h := by
    have := cast_units_lt (show before < rank by omega)
    linarith
  below := by
    have := cast_units_lt (Nat.lt_succ_self rank)
    linarith
  even_of_above before h heq := by
    have := cast_units_lt (show before < rank by omega)
    linarith
  even_of_below heq := by
    have := cast_units_lt (Nat.lt_succ_self rank)
    linarith

/-- What lies between two quotients of one rounding has the same rounding. -/
theorem IsNearest.of_between {q r s : ℚ} {rank : Nat} (hq : IsNearest q rank)
    (hs : IsNearest s rank) (hqr : q ≤ r) (hrs : r ≤ s) : IsNearest r rank where
  above before h := by
    have := hq.above before h
    linarith
  below := by
    have := hs.below
    linarith
  even_of_above before h heq := by
    have := hq.above before h
    exact hq.even_of_above before h (by linarith)
  even_of_below heq := by
    have := hs.below
    exact hs.even_of_below (by linarith)

/-- Two quotients of one rounding are no farther apart than the next magnitude is. -/
theorem IsNearest.sub_le_spacing {q r : ℚ} {rank : Nat} (hpos : 0 < rank) (hq : IsNearest q rank)
    (hr : IsNearest r rank) : q - r ≤ spacing rank := by
  obtain ⟨before, rfl⟩ : ∃ before, before + 1 = rank := ⟨rank - 1, by omega⟩
  have hbelow := hq.below
  have habove := hr.above before rfl
  have hunits : (units (before + 1) : ℚ) = units before + spacing before := by
    exact_mod_cast units_succ before
  have hnext : (units (before + 1 + 1) : ℚ) = units (before + 1) + spacing (before + 1) := by
    exact_mod_cast units_succ (before + 1)
  have hmono : (spacing before : ℚ) ≤ spacing (before + 1) := by
    exact_mod_cast spacing_mono (Nat.le_succ before)
  linarith

/-- No magnitude is nearer to a quotient than the one that it is rounded to. -/
theorem IsNearest.abs_sub_le {q : ℚ} {rank : Nat} (h : IsNearest q rank) (other : Nat) :
    |q - units rank| ≤ |q - units other| := by
  rcases Nat.lt_trichotomy other rank with hlt | rfl | hgt
  · obtain ⟨before, rfl⟩ : ∃ before, before + 1 = rank := ⟨rank - 1, by omega⟩
    have habove := h.above before rfl
    have hother := cast_units_le (show other ≤ before by omega)
    have hstep := cast_units_lt (Nat.lt_succ_self before)
    refine (abs_le.2 ⟨?_, ?_⟩).trans (le_abs_self _) <;> linarith
  · exact le_rfl
  · have hbelow := h.below
    have hother := cast_units_le (show rank + 1 ≤ other by omega)
    have hstep := cast_units_lt (Nat.lt_succ_self rank)
    refine (abs_le.2 ⟨?_, ?_⟩).trans (neg_le_abs _) <;> linarith

/-- Above the subnormal magnitudes a quotient is within `2^-53` of the magnitude that it is rounded
to, relative to that. -/
theorem IsNearest.abs_sub_mul_le {q : ℚ} {rank : Nat} (hnormal : fractions ≤ rank)
    (h : IsNearest q rank) : twoPow 53 * |units rank - q| ≤ units rank := by
  have hpos : 0 < fractions := twoPow_pos 52
  obtain ⟨before, rfl⟩ : ∃ before, before + 1 = rank := ⟨rank - 1, by omega⟩
  have habove := h.above before rfl
  have hbelow := h.below
  have hunits : (units (before + 1) : ℚ) = units before + spacing before := by
    exact_mod_cast units_succ before
  have hnext : (units (before + 1 + 1) : ℚ) = units (before + 1) + spacing (before + 1) := by
    exact_mod_cast units_succ (before + 1)
  have hmono : (spacing before : ℚ) ≤ spacing (before + 1) := by
    exact_mod_cast spacing_mono (Nat.le_succ before)
  have hspacing : (fractions * spacing (before + 1) : ℚ) ≤ units (before + 1) := by
    exact_mod_cast spacing_le hnormal
  have hnear : 2 * |(units (before + 1) : ℚ) - q| ≤ spacing (before + 1) := by
    have habs := abs_le.2 (show -((spacing (before + 1) : ℚ) / 2) ≤ units (before + 1) - q ∧
      units (before + 1) - q ≤ spacing (before + 1) / 2 by constructor <;> linarith)
    linarith
  have hfractions : (0 : ℚ) ≤ fractions := Nat.cast_nonneg _
  calc (twoPow 53 : ℚ) * |units (before + 1) - q|
      = fractions * (2 * |units (before + 1) - q|) := by rw [cast_twoPow_53]; ring
    _ ≤ fractions * spacing (before + 1) := mul_le_mul_of_nonneg_left hnear hfractions
    _ ≤ units (before + 1) := hspacing

/-- Between two magnitudes at the same distance, what is not farther from the magnitude in the
middle than some quotient that is rounded to it is rounded to it as well. -/
theorem IsNearest.of_abs_sub_le {q r : ℚ} {before : Nat}
    (hspacing : spacing before = spacing (before + 1)) (hq : IsNearest q (before + 1))
    (h : |r - units (before + 1)| ≤ |q - units (before + 1)|) : IsNearest r (before + 1) := by
  have habove := hq.above before rfl
  have hbelow := hq.below
  have hunits : (units (before + 1) : ℚ) = units before + spacing before := by
    exact_mod_cast units_succ before
  have hnext : (units (before + 1 + 1) : ℚ) = units (before + 1) + spacing before := by
    rw [hspacing]
    exact_mod_cast units_succ (before + 1)
  have hnear : 2 * |q - units (before + 1)| ≤ spacing before := by
    rcases abs_cases (q - units (before + 1)) with ⟨heq, -⟩ | ⟨heq, -⟩ <;> linarith
  have htie : 2 * |q - units (before + 1)| = spacing before → (before + 1) % 2 = 0 := by
    intro htie
    rcases abs_cases (q - units (before + 1)) with ⟨heq, -⟩ | ⟨heq, -⟩
    · exact hq.even_of_below (by linarith)
    · exact hq.even_of_above before rfl (by linarith)
  have hlow := neg_abs_le (r - units (before + 1))
  have hhigh := le_abs_self (r - units (before + 1))
  refine ⟨?_, by linarith, ?_, fun heq => htie (by linarith)⟩
  · intro other hother
    obtain rfl : other = before := by omega
    linarith
  · intro other hother heq
    obtain rfl : other = before := by omega
    exact htie (by linarith)

/-- What is nearer to a magnitude than half the distance to the one before it is rounded to it. -/
theorem isNearest_of_lt_spacing {q : ℚ} {before : Nat}
    (h : 2 * |q - units (before + 1)| < spacing before) : IsNearest q (before + 1) := by
  have hunits : (units (before + 1) : ℚ) = units before + spacing before := by
    exact_mod_cast units_succ before
  have hnext : (units (before + 1 + 1) : ℚ) = units (before + 1) + spacing (before + 1) := by
    exact_mod_cast units_succ (before + 1)
  have hmono : (spacing before : ℚ) ≤ spacing (before + 1) := by
    exact_mod_cast spacing_mono (Nat.le_succ before)
  have hlow := neg_abs_le (q - units (before + 1))
  have hhigh := le_abs_self (q - units (before + 1))
  refine ⟨?_, by linarith, ?_, fun heq => by linarith⟩
  · intro other hother
    obtain rfl : other = before := by omega
    linarith
  · intro other hother heq
    obtain rfl : other = before := by omega
    linarith

/-- The number of bits by which a quotient exceeds the 53 of a magnitude: cut to the bits that are
left, the quotient is in the binade that the rank stands for. -/
theorem nearestRank_binade (num den : Nat) :
    ∃ k, nearestRank num den = k * fractions + roundDiv .toEven num (den * twoPow k) ∧
      num / (den * twoPow k) < 2 * fractions ∧
      (k = 0 ∨ fractions ≤ num / (den * twoPow k)) := by
  refine ⟨(num / den).log2 - 52, by rw [nearestRank, shiftLeft_eq_mul], ?_⟩
  rw [← Nat.div_div_eq_div_mul]
  obtain ⟨whole, hwhole⟩ : ∃ whole, num / den = whole := ⟨_, rfl⟩
  rw [hwhole]
  have hdouble : 2 * fractions = twoPow 53 := rfl
  have hupper : whole < 2 ^ (whole.log2 + 1) := Nat.lt_log2_self
  by_cases hlow : whole.log2 ≤ 52
  · have hzero : whole.log2 - 52 = 0 := by omega
    rw [hzero, twoPow_zero, Nat.div_one, hdouble, twoPow_eq_pow]
    exact ⟨Nat.lt_of_lt_of_le hupper (Nat.pow_le_pow_right (by decide) (by omega)), Or.inl rfl⟩
  · have hne : whole ≠ 0 := by
      rintro rfl
      exact hlow (by decide)
    have hlower : 2 ^ whole.log2 ≤ whole := Nat.log2_self_le hne
    have hsplit : 2 ^ whole.log2 = fractions * twoPow (whole.log2 - 52) := by
      show _ = twoPow 52 * _
      rw [← twoPow_add, twoPow_eq_pow]
      congr 1
      omega
    have hpos := twoPow_pos (whole.log2 - 52)
    rw [pow_succ, hsplit] at hupper
    rw [hsplit] at hlower
    refine ⟨(Nat.div_lt_iff_lt_mul hpos).2 ?_, Or.inr ((Nat.le_div_iff_mul_le hpos).2 hlower)⟩
    linarith

theorem twoPow_le_spacing {k m : Nat} (hk : k = 0 ∨ fractions ≤ m) :
    twoPow k ≤ spacing (k * fractions + m) := by
  refine twoPow_le ?_
  rw [fractions_eq] at *
  omega

/-- Below a multiple of the last bit the spacing is that bit, except at the end of a binade. -/
theorem spacing_before {k m before : Nat} (hm : m ≤ 2 * fractions) (hk : k = 0 ∨ fractions ≤ m)
    (hend : ¬ (k ≠ 0 ∧ m = fractions)) (h : before + 1 = k * fractions + m) :
    spacing before = twoPow k := by
  rw [spacing]
  congr 1
  rw [fractions_eq] at *
  omega

/-- A quotient is rounded to the multiple `m * 2^k` of the last bit that it is within half a unit
of. At the lower end of a binade the magnitude before it is nearer, so there the quotient must not
be smaller. -/
theorem isNearest_of_half_bit {q : ℚ} {k m : Nat} (hm : m ≤ 2 * fractions)
    (hk : k = 0 ∨ fractions ≤ m) (hlow : (2 * m - 1) * (twoPow k : ℚ) ≤ 2 * q)
    (hhigh : 2 * q ≤ (2 * m + 1) * (twoPow k : ℚ))
    (hedge : k ≠ 0 → m = fractions → (m * twoPow k : ℚ) ≤ q)
    (htie : 2 * q = (2 * m - 1) * (twoPow k : ℚ) ∨ 2 * q = (2 * m + 1) * (twoPow k : ℚ) →
      m % 2 = 0) :
    IsNearest q (k * fractions + m) := by
  have hunits : (units (k * fractions + m) : ℚ) = m * twoPow k := by
    exact_mod_cast units_eq_mul hm hk
  have hparity : (k * fractions + m) % 2 = m % 2 := by
    rw [fractions_eq]
    omega
  have hnext : ((m + 1) * twoPow k : ℚ) ≤ units (k * fractions + m + 1) := by
    have hbit : (twoPow k : ℚ) ≤ spacing (k * fractions + m) := by
      exact_mod_cast twoPow_le_spacing hk
    rw [units_succ]
    push_cast
    rw [hunits]
    linarith
  have hbefore : ∀ before, before + 1 = k * fractions + m →
      (units before + units (k * fractions + m) : ℚ) = (2 * m - 1) * twoPow k ∨
        (units before + units (k * fractions + m) : ℚ) < 2 * q := by
    intro before h
    have hstep : (units (k * fractions + m) : ℚ) = units before + spacing before := by
      rw [← h]
      exact_mod_cast units_succ before
    by_cases hend : k ≠ 0 ∧ m = fractions
    · have hpos : (0 : ℚ) < spacing before := by exact_mod_cast spacing_pos before
      have := hedge hend.1 hend.2
      exact Or.inr (by linarith)
    · rw [spacing_before hm hk hend h] at hstep
      exact Or.inl (by linarith)
  refine ⟨?_, by linarith, ?_, ?_⟩
  · intro before h
    rcases hbefore before h with heq | hlt
    · linarith
    · exact hlt.le
  · intro before h heq
    rw [hparity]
    rcases hbefore before h with hmid | hlt
    · exact htie (Or.inl (by linarith))
    · linarith
  · intro heq
    rw [hparity]
    exact htie (Or.inr (by linarith))

/-- The rounding of a quotient is the nearest magnitude, and of two equally near ones the one of
even rank. -/
theorem isNearest_nearestRank (num : Nat) {den : Nat} (hden : 0 < den) :
    IsNearest ((num : ℚ) / den) (nearestRank num den) := by
  obtain ⟨k, hrank, hlt, hbinade⟩ := nearestRank_binade num den
  have hstep : 0 < den * twoPow k := Nat.mul_pos hden (twoPow_pos k)
  obtain ⟨hnear, hnear'⟩ := roundDiv_near .toEven num hstep
  have htie := @roundDiv_toEven_even num _ hstep
  have hfloor := le_roundDiv .toEven num (den * twoPow k)
  have hceil := roundDiv_le .toEven num (den * twoPow k)
  have hwhole := Nat.div_mul_le_self num (den * twoPow k)
  rw [hrank]
  generalize roundDiv .toEven num (den * twoPow k) = m at *
  have hdenq : (0 : ℚ) < den := by exact_mod_cast hden
  have hq : (den * (num / den) : ℚ) = num := mul_div_cancel₀ _ hdenq.ne'
  refine isNearest_of_half_bit (by omega) (by omega) ?_ ?_ ?_ ?_
  · refine le_of_mul_le_mul_left ?_ hdenq
    have hcast : (2 * (m * (den * twoPow k)) : ℚ) ≤ 2 * num + den * twoPow k := by
      exact_mod_cast hnear
    linarith
  · refine le_of_mul_le_mul_left ?_ hdenq
    have hcast : (2 * num : ℚ) ≤ 2 * (m * (den * twoPow k)) + den * twoPow k := by
      exact_mod_cast hnear'
    linarith
  · intro hk hm
    refine le_of_mul_le_mul_left ?_ hdenq
    have hle : m * (den * twoPow k) ≤ num :=
      Nat.le_trans (Nat.mul_le_mul_right _ (by omega)) hwhole
    have hcast : (m * (den * twoPow k) : ℚ) ≤ num := by exact_mod_cast hle
    linarith
  · intro h
    refine htie (h.imp (fun h => ?_) fun h => ?_)
    · have hcast : (2 * num + den * twoPow k : ℚ) = 2 * (m * (den * twoPow k)) := by
        rw [← hq]
        linear_combination (den : ℚ) * h
      exact_mod_cast hcast
    · have hcast : (2 * num : ℚ) = 2 * (m * (den * twoPow k)) + den * twoPow k := by
        rw [← hq]
        linear_combination (den : ℚ) * h
      exact_mod_cast hcast

theorem nearestRank_eq_iff {num den rank : Nat} (hden : 0 < den) :
    nearestRank num den = rank ↔ IsNearest ((num : ℚ) / den) rank := by
  have h := isNearest_nearestRank num hden
  constructor
  · rintro rfl
    exact h
  · exact fun hrank => h.eq hrank


end Binary64
end Reckoner
