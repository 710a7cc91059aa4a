import Reckoner.Display
import Reckoner.Proofs.Decimal.Shortest

/-!
# Rounding to decimal places

A result is scaled by a power of ten, rounded to a whole number and scaled back, unless the scaled
number is beyond `2^53`. Either way there is a decimal of so many places that reads back as the
rounded result: after rounding it is the whole number over the power of ten, and a number that was
left alone is so large that the decimals of so many places lie closer together than the magnitudes.

## Main results

* `exists_roundTo_eq`: rounding to places leaves a finite number, whose rank is `roundedRank`.
* `isRounded_roundedRank`: this rank is zero or that of a decimal of so many places.
-/

namespace Reckoner

namespace Binary64

/-- A whole number of at most 53 bits is a binary64 number. -/
theorem exists_ofNat_eq {n : Nat} (h : n ≤ 2 * fractions) :
    ∃ rank : Fin rankLimit, ofNat n = .finite false rank ∧ units rank.val = n * unitsInOne := by
  obtain ⟨rank, hrank⟩ := exists_units_eq h 1074
  have hunits : units rank = n * unitsInOne := hrank
  have hbound : n ≤ tenPow 300 := h.trans (by decide +kernel)
  have hlimit : rank < rankLimit :=
    Decimal.lt_rankLimit_of_readsAs (Decimal.readsAs_magnitude rank) (by
      rw [Decimal.magnitude_eq_of_units hunits]
      exact_mod_cast hbound)
  have hnearest : nearestRank (n * unitsInOne) 1 = rank := by rw [← hunits, nearestRank_units]
  refine ⟨⟨rank, hlimit⟩, ?_, hunits⟩
  rw [ofNat, nearest, dif_pos (hnearest ▸ hlimit)]
  congr 1
  exact Fin.ext hnearest

end Binary64

namespace Display

open Binary64 Decimal

/-- The rank of the magnitude times the power of ten. -/
def scaledRank (places rank : Nat) : Nat :=
  nearestRank (units rank * (tenPow places * unitsInOne)) unitsInOne

/-- The rank of the magnitude rounded to places. -/
def roundedRank (places rank : Nat) : Nat :=
  if units (scaledRank places rank) < twoPow 53 * unitsInOne then
    nearestRank (roundDiv .upward (units (scaledRank places rank)) unitsInOne * unitsInOne)
      (tenPow places)
  else rank

/-- The magnitudes that rounding to places leaves: zero, and above the subnormal ones those that
some decimal of so many places reads back as. -/
def IsRounded (places rank : Nat) : Prop :=
  rank = 0 ∨ fractions ≤ rank ∧ ∃ n : ℕ, ReadsAs (n * 10 ^ (-(places : ℤ))) rank

section Rounding

variable {places : Nat}

theorem tenPow_le_of_places (h : places ≤ maxPlaces) : tenPow places ≤ tenPow 15 := tenPow_le h

theorem tenPow_le_fractions (h : places ≤ maxPlaces) : tenPow places ≤ 2 * fractions :=
  (tenPow_le_of_places h).trans (by decide)

theorem zpow_neg_places (places : Nat) :
    (10 : ℚ) ^ (-(places : ℤ)) = 1 / (tenPow places : ℚ) := by
  rw [zpow_neg, zpow_natCast, tenPow_eq_pow, one_div]
  push_cast
  rfl

/-- A magnitude times the power of ten is rounded once. -/
theorem readsAs_scaledRank (places rank : Nat) :
    ReadsAs (magnitude rank * tenPow places) (scaledRank places rank) := by
  have h := readsAs_nearestRank (units rank * tenPow places) unitsInOne_pos
  rw [scaledRank, ← Nat.mul_assoc]
  rwa [Nat.cast_mul, mul_div_right_comm] at h

/-! ## Numbers that are rounded -/

/-- A whole magnitude is scaled without an error, unless it is left alone. -/
theorem magnitude_scaledRank_of_whole {rank m : Nat} (h : magnitude rank = m)
    (hsmall : magnitude (scaledRank places rank) < (2 * fractions : ℕ)) :
    magnitude (scaledRank places rank) = (m * tenPow places : ℕ) := by
  have hscaled := readsAs_scaledRank places rank
  have hlt := hscaled.lt_natCast le_rfl hsmall
  have hproduct : magnitude rank * tenPow places = (m * tenPow places : ℕ) := by
    rw [h]
    push_cast
    rfl
  rw [hproduct] at hscaled hlt
  -- The product has no more than 53 bits, so it is a magnitude itself.
  obtain ⟨same, hsame⟩ := exists_magnitude_eq_natCast
    (show m * tenPow places ≤ 2 * fractions by exact_mod_cast hlt.le)
  rw [← hsame] at hscaled
  rw [hscaled.eq (readsAs_magnitude same), hsame]

/-- A whole number other than zero over the power of ten is a normal magnitude. -/
theorem fractions_le_of_readsAs (hplaces : places ≤ maxPlaces) {n rank : Nat} (hn : n ≠ 0)
    (h : ReadsAs (n / tenPow places) rank) : fractions ≤ rank := by
  have hpos := cast_tenPow_pos places
  -- One over the power of ten is far above the subnormal magnitudes.
  have hsmall : units fractions * tenPow 15 ≤ unitsInOne := by decide +kernel
  have hone : units fractions * tenPow places ≤ n * unitsInOne :=
    calc units fractions * tenPow places
        ≤ units fractions * tenPow 15 := Nat.mul_le_mul_left _ (tenPow_le_of_places hplaces)
      _ ≤ n * unitsInOne := hsmall.trans (Nat.le_mul_of_pos_left _ (Nat.pos_of_ne_zero hn))
  refine (readsAs_magnitude fractions).mono h ?_
  rw [magnitude, div_le_div_iff₀ cast_unitsInOne_pos hpos]
  exact_mod_cast hone

/-- A whole number over the power of ten is zero or a normal magnitude. -/
theorem isRounded_of_whole (hplaces : places ≤ maxPlaces) (whole : Nat) :
    IsRounded places (nearestRank (whole * unitsInOne) (tenPow places)) := by
  have hreads := readsAs_nearestRank whole (tenPow_pos places)
  by_cases hzero : whole = 0
  · left
    rw [hzero, Nat.cast_zero, zero_div] at hreads
    rw [hzero]
    exact hreads.eq readsAs_zero
  · right
    refine ⟨fractions_le_of_readsAs hplaces hzero hreads, whole, ?_⟩
    rw [zpow_neg_places, mul_one_div]
    exact hreads

/-! ## Numbers that are left alone -/

/-- A power of two that with a factor of less than 54 bits nearly reaches another power of two
reaches it. -/
theorem twoPow_le_mul {t s factor : Nat} (hfactor : factor < 2 * twoPow 53 - 1)
    (h : (2 * twoPow 53 - 1) * twoPow s ≤ 2 * twoPow 53 * (twoPow t * factor)) :
    twoPow s ≤ twoPow t * factor := by
  have hconst : twoPow 53 = 9007199254740992 := rfl
  rw [hconst] at hfactor h
  by_cases hts : s ≤ t
  · have hpos : 0 < factor := by
      by_contra hzero
      have hs := twoPow_pos s
      rw [Nat.eq_zero_of_not_pos hzero] at h
      omega
    exact (twoPow_le hts).trans (Nat.le_mul_of_pos_right _ hpos)
  · obtain ⟨k, rfl⟩ : ∃ k, s = t + k := ⟨s - t, by omega⟩
    have hcancel : (2 * 9007199254740992 - 1) * twoPow k ≤ 2 * 9007199254740992 * factor := by
      refine Nat.le_of_mul_le_mul_left ?_ (twoPow_pos t)
      calc twoPow t * ((2 * 9007199254740992 - 1) * twoPow k)
          = (2 * 9007199254740992 - 1) * twoPow (t + k) := by rw [twoPow_add]; ring
        _ ≤ 2 * 9007199254740992 * (twoPow t * factor) := h
        _ = twoPow t * (2 * 9007199254740992 * factor) := by ring
    rw [twoPow_add]
    exact Nat.mul_le_mul_left _ (by omega)

/-- From `2^53` on a scaled number was at least half a unit below it before it was rounded. -/
theorem le_of_readsAs_large {v : ℚ} {product : Nat}
    (hlarge : twoPow 53 * unitsInOne ≤ units product) (h : ReadsAs v product) :
    ((2 * twoPow 53 - 1 : ℕ) : ℚ) * unitsInOne ≤ 2 * (v * unitsInOne) := by
  obtain ⟨low, hlow⟩ := exists_units_eq (show twoPow 53 - 1 ≤ 2 * fractions by decide) 1074
  have hunits : units low = (twoPow 53 - 1) * unitsInOne := hlow
  have hone := unitsInOne_pos
  have hbelow : low < product := by
    refine lt_of_units_lt (lt_of_lt_of_le ?_ hlarge)
    rw [hunits]
    exact Nat.mul_lt_mul_of_pos_right (by decide) hone
  obtain ⟨before, rfl⟩ : ∃ before, product = before + 1 := ⟨product - 1, by omega⟩
  have hmiddle := h.above before rfl
  have hbefore := cast_units_le (show low ≤ before by omega)
  have hlowq : (units low : ℚ) = (twoPow 53 - 1 : ℕ) * unitsInOne := by exact_mod_cast hunits
  have hlargeq : (twoPow 53 * unitsInOne : ℚ) ≤ units (before + 1) := by exact_mod_cast hlarge
  have hsum : ((2 * twoPow 53 - 1 : ℕ) : ℚ) = (twoPow 53 - 1 : ℕ) + twoPow 53 := by
    exact_mod_cast (by decide : 2 * twoPow 53 - 1 = twoPow 53 - 1 + twoPow 53)
  rw [hsum, add_mul]
  linarith

/-- A number whose scaled one reaches `2^53` is so large that the decimals of so many places lie no
farther apart than the magnitudes. -/
theorem places_le_spacing (hplaces : places ≤ maxPlaces) {before product : Nat}
    (hlarge : twoPow 53 * unitsInOne ≤ units product)
    (h : ReadsAs (magnitude (before + 1) * tenPow places) product) :
    unitsInOne ≤ spacing before * tenPow places := by
  have hscaled := le_of_readsAs_large hlarge h
  have hunits : magnitude (before + 1) * tenPow places * unitsInOne =
      units (before + 1) * tenPow places := by
    rw [mul_right_comm, magnitude_mul_unitsInOne]
  rw [hunits] at hscaled
  have hnat : (2 * twoPow 53 - 1) * unitsInOne ≤ 2 * (units (before + 1) * tenPow places) := by
    exact_mod_cast hscaled
  refine twoPow_le_mul ((tenPow_le_of_places hplaces).trans_lt (by decide)) (hnat.trans ?_)
  calc 2 * (units (before + 1) * tenPow places)
      ≤ 2 * (twoPow 53 * spacing before * tenPow places) :=
        Nat.mul_le_mul_left _ (Nat.mul_le_mul_right _ (units_succ_le before))
    _ = 2 * twoPow 53 * (spacing before * tenPow places) := by ring

theorem isRounded_of_large (hplaces : places ≤ maxPlaces) {rank product : Nat}
    (hlarge : twoPow 53 * unitsInOne ≤ units product)
    (h : ReadsAs (magnitude rank * tenPow places) product) : IsRounded places rank := by
  by_cases hzero : rank = 0
  · exact Or.inl hzero
  obtain ⟨before, rfl⟩ : ∃ before, rank = before + 1 := ⟨rank - 1, by omega⟩
  have hspacing := places_le_spacing hplaces hlarge h
  refine Or.inr ⟨?_, ?_⟩
  · by_contra hsmall
    have hone : spacing before = 1 := by
      rw [spacing, Nat.div_eq_of_lt (by omega)]
      rfl
    rw [hone, Nat.one_mul] at hspacing
    exact absurd (hspacing.trans (tenPow_le_of_places hplaces)) (by decide +kernel)
  · have hgrid : ((340 - places : ℕ) : ℤ) - 340 = -(places : ℤ) := by
      rw [maxPlaces] at hplaces
      omega
    rw [← hgrid]
    refine exists_readsAs_of_le_spacing ?_
    have hpos := cast_tenPow_pos places
    rw [hgrid, zpow_neg_places, one_div_mul_eq_div, div_le_iff₀ hpos]
    exact_mod_cast hspacing

/-! ## Both together -/

/-- A whole number up to `2^53` that is scaled back is finite. -/
theorem lt_rankLimit_of_whole {whole : Nat} (h : whole ≤ twoPow 53) (places : Nat) :
    nearestRank (whole * unitsInOne) (tenPow places) < rankLimit := by
  refine lt_rankLimit_of_readsAs (readsAs_nearestRank whole (tenPow_pos places)) ?_
  have hpos : (1 : ℚ) ≤ tenPow places := by exact_mod_cast tenPow_pos places
  have hbound : whole ≤ tenPow 300 := h.trans (by decide +kernel)
  exact (div_le_self (Nat.cast_nonneg _) hpos).trans (by exact_mod_cast hbound)

/-- Rounding to places leaves the sign and changes the rank. -/
theorem exists_roundTo_eq (hplaces : places ≤ maxPlaces) (negative : Bool)
    (rank : Fin rankLimit) :
    ∃ rounded : Fin rankLimit, rounded.val = roundedRank places rank ∧
      roundTo places (.finite negative rank) = .finite negative rounded := by
  have hmul : mul (.finite negative rank) (ofNat (tenPow places)) =
      nearest negative (units rank * (tenPow places * unitsInOne)) unitsInOne := by
    obtain ⟨factor, hofNat, hfactor⟩ := exists_ofNat_eq (tenPow_le_fractions hplaces)
    rw [hofNat, ← hfactor]
    simp [mul]
  by_cases hlarge : twoPow 53 * unitsInOne ≤ units (scaledRank places rank)
  · -- The number is left alone.
    have hself : roundedRank places rank = rank := if_neg (Nat.not_lt.2 hlarge)
    refine ⟨rank, hself.symm, ?_⟩
    rw [roundTo, hmul, nearest]
    split
    · next heq =>
      split at heq
      · cases heq
        exact if_neg (Nat.not_lt.2 hlarge)
      · cases heq
    · rfl
  · -- A whole number is scaled back.
    have hsmall := Nat.lt_of_not_le hlarge
    have hlimit : scaledRank places rank < rankLimit :=
      lt_of_units_lt (hsmall.trans_le (by decide +kernel))
    have hwhole : roundDiv .upward (units (scaledRank places rank)) unitsInOne ≤ twoPow 53 := by
      have hdiv : units (scaledRank places rank) / unitsInOne < twoPow 53 :=
        (Nat.div_lt_iff_lt_mul unitsInOne_pos).2 hsmall
      have hceil := roundDiv_le .upward (units (scaledRank places rank)) unitsInOne
      omega
    have hrounded : roundedRank places rank =
        nearestRank (roundDiv .upward (units (scaledRank places rank)) unitsInOne * unitsInOne)
          (tenPow places) := if_pos hsmall
    have hproduct : mul (.finite negative rank) (ofNat (tenPow places)) =
        .finite negative ⟨scaledRank places rank, hlimit⟩ := by
      rw [hmul, nearest]
      exact dif_pos hlimit
    refine ⟨⟨_, lt_rankLimit_of_whole hwhole places⟩, hrounded.symm, ?_⟩
    rw [roundTo, hproduct]
    simp only
    rw [if_pos hsmall, nearest, dif_pos (lt_rankLimit_of_whole hwhole places)]

/-- What rounding to places leaves is zero or the reading of a decimal of so many places. -/
theorem isRounded_roundedRank (hplaces : places ≤ maxPlaces) (rank : Nat) :
    IsRounded places (roundedRank places rank) := by
  rw [roundedRank]
  split
  · exact isRounded_of_whole hplaces _
  · next hlarge =>
    exact isRounded_of_large hplaces (Nat.le_of_not_lt hlarge) (readsAs_scaledRank places rank)

end Rounding

end Display

end Reckoner
