import Reckoner.Proofs.Decimal.Minimal
import Reckoner.Proofs.Display.Rounding

/-!
# The displayed numeral

What is displayed for a finite number is a sign and a written number in canonical form, which reads
back as the number that is displayed. If the number was rounded to places, the numeral stands for a
multiple of the last of them.

## Main results

* `write_eq`: the text is the sign and the characters of `written`.
* `isCanonical_written`, `readsAs_written`, `onGrid_written`: what this numeral is.
* `readBinary64?_written`: it reads back as the number that is displayed.
* `result_finite`, `exists_result_eq`: the text of a result.
-/

namespace Reckoner

namespace Display

open Binary64 Decimal

/-! ## Whole numbers -/

section Whole

variable {rank : Nat}

/-- From `2^52` on all magnitudes are whole. -/
theorem unitsInOne_dvd_of_le (h : fractions * unitsInOne ≤ units rank) :
    unitsInOne ∣ units rank := by
  have hfirst : units (1074 * fractions + fractions) = fractions * unitsInOne :=
    units_eq_mul (by omega) (Or.inr le_rfl)
  have hle : 1074 * fractions + fractions ≤ rank := by
    by_contra hlt
    have := units_lt_units (Nat.lt_of_not_le hlt)
    omega
  have hspacing : spacing (1074 * fractions + fractions) = unitsInOne := by
    rw [spacing, show (1074 * fractions + fractions) / fractions - 1 = 1074 by decide]
    rfl
  have hmono := spacing_mono hle
  rw [hspacing] at hmono
  exact (twoPow_dvd_of_le hmono).trans (spacing_dvd_units rank)

theorem unitsInOne_dvd_of_large (h : twoPow 53 * unitsInOne ≤ units rank) :
    unitsInOne ∣ units rank :=
  unitsInOne_dvd_of_le ((Nat.mul_le_mul_right _ (by decide)).trans h)

/-- A whole number that is not too large reads as a whole magnitude that is not too large. -/
theorem whole_of_readsAs {n : Nat} (hn : n ≤ twoPow 60) (h : ReadsAs n rank) :
    units rank % unitsInOne = 0 ∧ units rank < fullBelow * unitsInOne := by
  constructor
  · refine Nat.mod_eq_zero_of_dvd ?_
    by_cases hsmall : n ≤ twoPow 53
    · obtain ⟨same, hsame⟩ := exists_units_eq (show n ≤ 2 * fractions from hsmall) 1074
      have hreads := readsAs_magnitude same
      rw [magnitude_eq_of_units hsame] at hreads
      rw [h.eq hreads, hsame]
      exact Nat.dvd_mul_left _ _
    · obtain ⟨first, hfirst⟩ := exists_units_eq (show twoPow 53 ≤ 2 * fractions by decide) 1074
      have hreads := readsAs_magnitude first
      rw [magnitude_eq_of_units hfirst] at hreads
      have hle := hreads.mono h (by exact_mod_cast (Nat.lt_of_not_le hsmall).le)
      refine unitsInOne_dvd_of_large ?_
      rw [show twoPow 53 * unitsInOne = units first from hfirst.symm]
      exact_mod_cast cast_units_le hle
  · obtain ⟨last, hlast⟩ := exists_units_eq (show 1 ≤ 2 * fractions by decide) (60 + 1074)
    have hunits : units last = twoPow 60 * unitsInOne := by
      rw [hlast, Nat.one_mul, twoPow_add]
      rfl
    have hreads := readsAs_magnitude last
    rw [magnitude_eq_of_units hunits] at hreads
    have hle : units rank ≤ units last := by
      exact_mod_cast cast_units_le (h.mono hreads (by exact_mod_cast hn))
    rw [hunits] at hle
    exact hle.trans_lt (Nat.mul_lt_mul_of_pos_right (by decide +kernel) unitsInOne_pos)

end Whole

/-! ## The numeral of a magnitude -/

/-- The numeral that is displayed for the magnitude of this rank. -/
def written (rank : Nat) : Written :=
  if units rank % unitsInOne = 0 ∧ units rank < fullBelow * unitsInOne then
    .ofNat (units rank / unitsInOne)
  else .ofDecimal (shortest rank)

theorem chars_written_zero : (written 0).chars = ['0'] := by
  rw [written, if_pos ⟨rfl, by decide +kernel⟩, Written.chars_ofNat]
  decide +kernel

/-- A finite number is displayed as its numeral after its sign, and zero without one. -/
theorem write_eq (negative : Bool) (rank : Fin rankLimit) :
    write (.finite negative rank) =
      String.ofList (signChars (negative && rank.val != 0) ++ (written rank.val).chars) := by
  rw [write]
  by_cases hzero : rank.val = 0
  · rw [if_pos hzero, hzero, chars_written_zero]
    simp [signChars]
  · have hsign : (negative && rank.val != 0) = negative := by simp [hzero]
    rw [if_neg hzero, hsign, written]
    split
    · rw [Written.chars_ofNat]
    · rw [shortestText, Binary64.write, Written.write_shortest]

section Numeral

variable {rank : Nat}

theorem value_written_of_whole (h : units rank % unitsInOne = 0) :
    ((units rank / unitsInOne : ℕ) : ℚ) = magnitude rank := by
  refine (magnitude_eq_of_units ?_).symm
  rw [Nat.div_mul_cancel (Nat.dvd_of_mod_eq_zero h)]

theorem readsAs_written (rank : Nat) : ReadsAs (written rank).value rank := by
  rw [written]
  split
  · next hwhole =>
    rw [Written.value_ofNat, value_written_of_whole hwhole.1]
    exact readsAs_magnitude rank
  · rw [Written.value_ofDecimal]
    exact readsAs_shortest rank

theorem isCanonical_written (rank : Nat) : (written rank).IsCanonical := by
  rw [written]
  split
  · exact Written.isCanonical_ofNat _
  · next hother =>
    have hne : rank ≠ 0 := by
      rintro rfl
      exact hother ⟨rfl, by decide +kernel⟩
    refine Written.isCanonical_ofDecimal (digits_shortest_mod hne) ?_
    by_contra hwhole
    -- A whole number that is not too large is not written in the shortest notation.
    have hlead := Written.leadingExponent_eq (shortest rank)
    have hlength := length_digitsOf (shortest rank).digits
    have hpos := decimalLength_pos (shortest rank).digits
    have hreads := readsAs_shortest rank
    obtain ⟨e, he⟩ := Int.eq_ofNat_of_zero_le (by omega : 0 ≤ (shortest rank).exponent)
    have hvalue : (shortest rank).value = ((shortest rank).digits * tenPow e : ℕ) := by
      rw [value, he, zpow_natCast, tenPow_eq_pow]
      push_cast
      rfl
    rw [hvalue] at hreads
    refine hother (whole_of_readsAs ?_ hreads)
    calc (shortest rank).digits * tenPow e
        ≤ tenPow (decimalLength (shortest rank).digits) * tenPow e :=
          Nat.mul_le_mul_right _ (lt_tenPow_decimalLength _).le
      _ = tenPow (decimalLength (shortest rank).digits + e) := (tenPow_add _ _).symm
      _ ≤ tenPow 16 := tenPow_le (by omega)
      _ ≤ twoPow 60 := by decide +kernel

theorem onGrid_written {places : Nat} (h : IsRounded places rank) :
    OnGrid (-(places : ℤ)) (written rank).value := by
  rw [written]
  split
  · rw [Written.value_ofNat]
    exact OnGrid.of_le ⟨units rank / unitsInOne, by rw [zpow_zero, mul_one]⟩ (by omega)
  · next hother =>
    rw [Written.value_ofDecimal]
    rcases h with rfl | ⟨hnormal, n, hn⟩
    · exact absurd ⟨rfl, by decide +kernel⟩ hother
    · exact onGrid_shortest hnormal hn

/-- Only zero is displayed as a number of value zero. -/
theorem value_written_eq_zero (h : (written rank).value = 0) : rank = 0 := by
  have hreads := readsAs_written rank
  rw [h] at hreads
  exact hreads.eq readsAs_zero

end Numeral

/-- What is displayed for a finite number reads back as it, except that zero has lost its sign. -/
theorem readBinary64?_written (negative : Bool) (rank : Fin rankLimit) :
    readBinary64? (String.ofList (signChars negative ++ (written rank.val).chars)) =
      some (.finite negative rank) := by
  rw [Written.readBinary64?_chars (isCanonical_written rank.val).toIsNumeral]
  exact congrArg some (toBinary64_of_readsAs (readsAs_written rank.val) rank.isLt negative)

/-! ## The numeral of a result -/

theorem clampPlaces_le (places : Int) : clampPlaces places ≤ maxPlaces := Nat.min_le_right _ _

/-- The result of a finite number shows the sign and the numeral of the rounded magnitude. -/
theorem result_finite (places : Int) (negative : Bool) (rank : Fin rankLimit) :
    result places (.finite negative rank) =
      String.ofList (signChars (negative && roundedRank (clampPlaces places) rank != 0)
        ++ (written (roundedRank (clampPlaces places) rank)).chars) := by
  obtain ⟨rounded, hrank, heq⟩ := exists_roundTo_eq (clampPlaces_le places) negative rank
  rw [result, heq, write_eq, hrank]

/-- A displayed result of a finite number: the rounded number, and its numeral after its sign. -/
theorem exists_result_eq {x : Binary64} (hx : x.isFinite = true) (places : Int) :
    ∃ (negative : Bool) (rank : Fin rankLimit),
      result places x =
          String.ofList (signChars (negative && rank.val != 0) ++ (written rank.val).chars) ∧
        IsRounded (clampPlaces places) rank.val := by
  cases x with
  | nan => cases hx
  | infinite negative => cases hx
  | finite negative rank =>
      obtain ⟨rounded, hrank, -⟩ := exists_roundTo_eq (clampPlaces_le places) negative rank
      refine ⟨negative, rounded, ?_, ?_⟩
      · rw [hrank]
        exact result_finite places negative rank
      · rw [hrank]
        exact isRounded_roundedRank (clampPlaces_le places) rank

end Display

end Reckoner
