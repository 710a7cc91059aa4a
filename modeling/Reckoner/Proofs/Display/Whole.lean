import Reckoner.Proofs.Display.Order

/-!
# Whole numbers are displayed as they are

Rounding to places cannot alter a whole number. Where the scaled number is rounded, it is less than
`2^53`, so it is the exact product: there is no fraction to round, and scaling back finds the number
itself. Where it is not, the number is left alone. Below `10^21` a whole number is written in full.

## Main results

* `roundedRank_eq_self_of_whole`: rounding to places leaves a whole magnitude alone.
* `result_of_whole`: the result of a whole number is its decimal text.
-/

namespace Reckoner

namespace Display

open Binary64 Decimal

/-- Rounding to places leaves a whole magnitude alone. -/
theorem roundedRank_eq_self_of_whole (places : Nat) {rank m : Nat} (h : magnitude rank = m) :
    roundedRank places rank = rank := by
  rw [roundedRank]
  split
  · next hlimit =>
    have hscaled := magnitude_scaledRank_of_whole h (magnitude_lt_iff.2 hlimit)
    rw [units_eq_of_magnitude hscaled, roundDiv_mul_self .upward _ unitsInOne_pos]
    refine nearestRank_eq_of_readsAs (tenPow_pos places) ?_
    rw [Nat.cast_mul, mul_div_cancel_right₀ _ (cast_tenPow_pos places).ne', ← h]
    exact readsAs_magnitude rank
  · rfl

/-- A whole magnitude that is not too large is written in full. -/
theorem written_of_whole {rank m : Nat} (h : magnitude rank = m) (hm : m < fullBelow) :
    written rank = .ofNat m := by
  have hunits := units_eq_of_magnitude h
  have hdiv : units rank / unitsInOne = m := by
    rw [hunits, Nat.mul_div_cancel _ unitsInOne_pos]
  have hwhole : units rank % unitsInOne = 0 ∧ units rank < fullBelow * unitsInOne := by
    rw [hunits]
    exact ⟨Nat.mul_mod_left _ _, Nat.mul_lt_mul_of_pos_right hm unitsInOne_pos⟩
  rw [written, if_pos hwhole, hdiv]

/-! ## Signs -/

theorem magnitude_ne_zero_iff {rank : Nat} : magnitude rank ≠ 0 ↔ rank ≠ 0 := by
  refine ⟨?_, fun h => (magnitude_pos (Nat.pos_of_ne_zero h)).ne'⟩
  rintro h rfl
  exact h magnitude_zero

theorem intChars_eq (n : ℤ) : intChars n = signChars (n < 0) ++ digitsOf n.natAbs := by
  by_cases hn : n < 0 <;> simp [intChars, signChars, hn]

/-! ## Results -/

/-- Whatever the number of places, the result of a whole number below `10^21` is the decimal text of
that number. -/
theorem result_of_whole {negative : Bool} {rank : Fin rankLimit} {n : ℤ}
    (hwhole : signed negative (magnitude rank) = n) (hsmall : |n| < 10 ^ 21) (places : Int) :
    result places (.finite negative rank) = intText n := by
  have hmagnitude : magnitude rank = n.natAbs := by
    rw [Nat.cast_natAbs, Int.cast_abs, ← hwhole, abs_signed, abs_of_nonneg (magnitude_nonneg _)]
  have hfull : n.natAbs < fullBelow := by
    rw [Int.abs_eq_natAbs] at hsmall
    exact_mod_cast hsmall
  have hsign : (negative && rank.val != 0) = decide (n < 0) := by
    rw [Bool.eq_iff_iff, decide_eq_true_iff, Bool.and_eq_true, bne_iff_ne,
      ← magnitude_ne_zero_iff, ← signed_lt_zero_iff (magnitude_nonneg rank), hwhole]
    exact Int.cast_lt_zero
  rw [result_finite, roundedRank_eq_self_of_whole _ hmagnitude, written_of_whole hmagnitude hfull,
    Written.chars_ofNat, hsign, intText, intChars_eq]

/-- A whole number far beyond `2^53`, under a minus sign. -/
theorem minus_hundred_quintillion_is_displayed :
    ∃ rank : Fin rankLimit, signed true (magnitude rank) = (-100000000000000000000 : ℤ) ∧
      |(-100000000000000000000 : ℤ)| < 10 ^ 21 ∧
      result 15 (.finite true rank) = "-100000000000000000000" := by
  obtain ⟨rank, hunits⟩ :
      ∃ rank : Fin rankLimit, units rank = 100000000000000000000 * unitsInOne :=
    ⟨⟨4906019910204099648, by decide +kernel⟩, by decide +kernel⟩
  have hwhole : signed true (magnitude rank) = (-100000000000000000000 : ℤ) := by
    rw [magnitude_eq_of_units hunits]
    norm_num [signed]
  have hsmall : |(-100000000000000000000 : ℤ)| < 10 ^ 21 := by decide
  have htext : intText (-100000000000000000000) = "-100000000000000000000" := by decide +kernel
  rw [← htext]
  exact ⟨rank, hwhole, hsmall, result_of_whole hwhole hsmall 15⟩

end Display

end Reckoner
