import Reckoner.Proofs.Display.Answer
import Reckoner.Proofs.Display.Order

/-!
# Displaying a displayed number again

A displayed number that is read and displayed once more need not show the same text. The numeral
stands for `n` units of the last place, and the binary64 number that it reads as is not quite that
many. Scaling this number rounds it again, to the nearest magnitude, before it is rounded to a whole
number. Below `2^51` the magnitudes have quarters of a unit, and the error of the scaled number is
less than that. From `2^52` on they have no fractions at all, and the whole number that is nearest
to the scaled number reads back as `n` does. In between they have halves only: if the scaled number
is more than a quarter above `n`, it becomes `n + 1/2`, which goes up to `n + 1`.

## Main results

* `roundedRank_eq_self_iff`: when rounding to places leaves alone what reads back from a numeral.
* `displayed_again_iff`: when a displayed number is displayed as the same text.
* `last_place_goes_up`: a displayed number that is not.
-/

namespace Reckoner

namespace Display

open Binary64 Decimal

/-! ## Rounding to a whole number -/

/-- The whole number that a magnitude is rounded to, a half going up. -/
theorem roundDiv_units_eq_iff {rank n : Nat} :
    roundDiv .upward (units rank) unitsInOne = n ↔
      2 * (n : ℚ) ≤ 2 * magnitude rank + 1 ∧ 2 * magnitude rank < 2 * n + 1 := by
  have hone := cast_unitsInOne_pos
  have hpos := unitsInOne_pos
  have hunits := magnitude_mul_unitsInOne rank
  have hlow : 2 * (n : ℚ) ≤ 2 * magnitude rank + 1 ↔
      2 * (n * unitsInOne) ≤ 2 * units rank + unitsInOne := by
    rw [← mul_le_mul_iff_of_pos_right hone, add_mul, mul_assoc, mul_assoc, hunits, one_mul]
    exact_mod_cast Iff.rfl
  have hhigh : 2 * magnitude rank < 2 * (n : ℚ) + 1 ↔
      2 * units rank < 2 * (n * unitsInOne) + unitsInOne := by
    rw [← mul_lt_mul_iff_of_pos_right hone, add_mul, mul_assoc, mul_assoc, hunits, one_mul]
    exact_mod_cast Iff.rfl
  rw [hlow, hhigh, roundDiv_upward _ hpos, Nat.div_eq_iff (by omega), Nat.mul_left_comm]
  omega

/-- From `2^51` on up to `2^52` the magnitudes are the halves, and the middle between a whole number
and the half above it goes to the whole number. -/
theorem lt_half_iff {v : ℚ} {rank n : Nat} (hlow : twoPow 51 ≤ n) (hhigh : n < twoPow 52)
    (h : ReadsAs v rank) : 2 * magnitude rank < 2 * n + 1 ↔ 4 * (v - n) ≤ 1 := by
  have hfractions : fractions = 2 * twoPow 51 := twoPow_succ 51
  have hlimit : fractions = twoPow 52 := rfl
  have hwhole : units (1073 * fractions + 2 * n) = 2 * n * twoPow 1073 :=
    units_eq_mul (by omega) (Or.inr (by omega))
  have hhalf : units (1073 * fractions + (2 * n + 1)) = (2 * n + 1) * twoPow 1073 :=
    units_eq_mul (by omega) (Or.inr (by omega))
  rw [← Nat.add_assoc] at hhalf
  have hone : unitsInOne = 2 * twoPow 1073 := twoPow_succ 1073
  have hbit : (0 : ℚ) < twoPow 1073 := by exact_mod_cast twoPow_pos 1073
  have honeq : (unitsInOne : ℚ) = 2 * twoPow 1073 := by exact_mod_cast hone
  constructor
  · intro hlt
    -- The midpoint above the magnitude is at most the one above `n`.
    have hle : rank ≤ 1073 * fractions + 2 * n := by
      refine Nat.le_of_lt_succ (lt_of_units_lt ?_)
      rw [Nat.succ_eq_add_one, hhalf]
      have hscaled := mul_lt_mul_of_pos_right hlt hbit
      have hunits := magnitude_mul_unitsInOne rank
      rw [honeq, ← mul_assoc, mul_comm (magnitude rank)] at hunits
      rw [hunits] at hscaled
      exact_mod_cast hscaled
    have hbelow := h.below
    have hfirst := cast_units_le hle
    have hsecond := cast_units_le (Nat.succ_le_succ hle)
    rw [hwhole] at hfirst
    rw [Nat.succ_eq_add_one, Nat.succ_eq_add_one, hhalf] at hsecond
    push_cast at hfirst hsecond
    refine le_of_mul_le_mul_right ?_ hbit
    rw [honeq] at hbelow
    linarith
  · intro hle
    have hmiddle : ReadsAs (n + 1 / 4) (1073 * fractions + 2 * n) := by
      refine isNearest_of_half_bit (by omega) (Or.inr (by omega)) ?_ ?_ ?_ fun _ => by omega
      · rw [honeq]
        push_cast
        linarith
      · rw [honeq]
        push_cast
        linarith
      · intro _ _
        rw [honeq]
        push_cast
        linarith
    have hrank := cast_units_le (h.mono hmiddle (by linarith))
    rw [hwhole, ← magnitude_mul_unitsInOne rank, honeq] at hrank
    push_cast at hrank
    have hmagnitude : magnitude rank ≤ n := by
      refine le_of_mul_le_mul_right ?_ (mul_pos two_pos hbit)
      linarith
    linarith

/-! ## Repetition -/

section Repetition

variable {places rank n : Nat}

theorem abs_sub_div_mul {a b t : ℚ} (ht : 0 < t) : |a - b / t| * t = |a * t - b| := by
  have hscale : (a - b / t) * t = a * t - b := by
    rw [sub_mul, div_mul_cancel₀ _ ht.ne']
  rw [← hscale, abs_mul, abs_of_pos ht]

/-- The magnitude that a numeral of `n` units of the last place reads as, in such units. -/
theorem scaled_near (hplaces : places ≤ maxPlaces) (h : ReadsAs (n / tenPow places) rank) :
    twoPow 53 * |magnitude rank * tenPow places - n| ≤ magnitude rank * tenPow places := by
  have hpos := cast_tenPow_pos places
  by_cases hn : n = 0
  · rw [hn, Nat.cast_zero, zero_div] at h
    obtain rfl := h.eq readsAs_zero
    simp [hn, magnitude_zero]
  · have hnear := h.abs_sub_mul_le (fractions_le_of_readsAs hplaces hn h)
    rw [← abs_sub_div_mul hpos, ← mul_assoc]
    exact mul_le_mul_of_nonneg_right hnear hpos.le

theorem abs_scaled_sub_lt (hplaces : places ≤ maxPlaces) (h : ReadsAs (n / tenPow places) rank)
    {error : ℚ} (hlt : magnitude rank * tenPow places < twoPow 53 * error) :
    |magnitude rank * tenPow places - n| < error :=
  lt_of_mul_lt_mul_left ((scaled_near hplaces h).trans_lt hlt) (Nat.cast_nonneg _)

/-- Below `2^52` units no two numerals of so many places read as the same magnitude. -/
theorem eq_of_readsAs (hplaces : places ≤ maxPlaces) {other : Nat}
    (hlt : magnitude rank * tenPow places < twoPow 53 * (1 / 2 : ℚ))
    (h : ReadsAs (n / tenPow places) rank) (hother : ReadsAs (other / tenPow places) rank) :
    other = n := by
  have hn := abs_lt.1 (abs_scaled_sub_lt hplaces h hlt)
  have hsame := abs_lt.1 (abs_scaled_sub_lt hplaces hother hlt)
  have hbelow : (other : ℚ) < n + 1 := by linarith
  have habove : (n : ℚ) < other + 1 := by linarith
  exact Nat.le_antisymm (Nat.le_of_lt_succ (by exact_mod_cast hbelow))
    (Nat.le_of_lt_succ (by exact_mod_cast habove))

/-- A magnitude that is a power of two, and at least `2^52` when it is scaled, is whole. -/
theorem exists_magnitude_eq_of_twoPow (hplaces : places ≤ maxPlaces) {k : Nat}
    (hpower : units rank = twoPow k)
    (hlarge : ((fractions - 1 : ℕ) : ℚ) < magnitude rank * tenPow places) :
    ∃ whole : ℕ, magnitude rank = whole := by
  have hscaled : (fractions - 1) * unitsInOne < units rank * tenPow places := by
    have h := mul_lt_mul_of_pos_right hlarge cast_unitsInOne_pos
    rw [mul_right_comm, magnitude_mul_unitsInOne] at h
    exact_mod_cast h
  have hone : unitsInOne ≤ units rank := by
    by_contra hlt
    have hpower := tenPow_le_of_places hplaces
    have hconst : tenPow 15 ≤ fractions - 1 := by decide
    have hle : units rank * tenPow places ≤ unitsInOne * (fractions - 1) :=
      Nat.mul_le_mul (Nat.le_of_not_le hlt) (hpower.trans hconst)
    rw [Nat.mul_comm unitsInOne] at hle
    exact absurd hscaled (Nat.not_lt.2 hle)
  rw [hpower] at hone
  obtain ⟨whole, hwhole⟩ := twoPow_dvd_of_le hone
  refine ⟨whole, magnitude_eq_of_units ?_⟩
  rw [hpower, hwhole, Nat.mul_comm]
  rfl

theorem natCast_lt_of_large (hlow : (fractions : ℚ) ≤ magnitude (scaledRank places rank)) :
    ((fractions - 1 : ℕ) : ℚ) < magnitude rank * tenPow places := by
  obtain ⟨below, hbelow⟩ := exists_magnitude_eq_natCast
    (show fractions - 1 ≤ 2 * fractions by omega)
  by_contra hle
  have hmagnitude := (readsAs_scaledRank places rank).magnitude_le
    ((le_of_not_gt hle).trans_eq hbelow.symm)
  have hstep : ((fractions - 1 : ℕ) : ℚ) < fractions := by
    exact_mod_cast Nat.sub_one_lt (twoPow_pos 52).ne'
  linarith

/-- Where the scaled magnitude has no fraction it is the nearest whole number. If any whole number
of units of the last place reads as the magnitude, so does this one. -/
theorem readsAs_of_nearest_whole (hplaces : places ≤ maxPlaces)
    (h : ReadsAs (n / tenPow places) rank) (hn : n ≤ 2 * fractions) {whole : Nat}
    (hlow : (fractions : ℚ) ≤ magnitude (scaledRank places rank))
    (hhigh : magnitude (scaledRank places rank) < (2 * fractions : ℕ))
    (hwhole : magnitude (scaledRank places rank) = whole) :
    ReadsAs (whole / tenPow places) rank := by
  have hpos := cast_tenPow_pos places
  have hscaled := readsAs_scaledRank places rank
  have hfar := natCast_lt_of_large hlow
  have hrank : rank ≠ 0 := by
    rintro rfl
    rw [magnitude_zero, zero_mul] at hfar
    exact absurd hfar (Nat.cast_nonneg _).not_gt
  obtain ⟨before, rfl⟩ : ∃ before, rank = before + 1 := ⟨rank - 1, by omega⟩
  rcases spacing_eq_or before with hsame | ⟨k, hpower⟩
  · -- The nearest whole number may be on the other side, but it is not farther away.
    obtain ⟨other, hother⟩ := exists_magnitude_eq_natCast hn
    have hnearest := hscaled.abs_sub_le other
    rw [hwhole, hother, ← abs_sub_div_mul hpos, ← abs_sub_div_mul hpos] at hnearest
    apply h.of_abs_sub_le hsame
    rw [abs_sub_comm, abs_sub_comm (n / tenPow places : ℚ)]
    exact le_of_mul_le_mul_right hnearest hpos
  · -- The scaled magnitude was whole before it was rounded.
    obtain ⟨c, hc⟩ := exists_magnitude_eq_of_twoPow hplaces hpower hfar
    have hwholeq := magnitude_scaledRank_of_whole hc hhigh
    rw [hwhole, Nat.cast_mul, ← hc] at hwholeq
    rw [hwholeq, mul_div_cancel_right₀ _ hpos.ne']
    exact readsAs_magnitude _

/-- Where the scaled magnitude has no fraction, displaying changes nothing. -/
theorem roundedRank_eq_self_of_large (hplaces : places ≤ maxPlaces)
    (h : ReadsAs (n / tenPow places) rank)
    (hlow : (fractions : ℚ) ≤ magnitude (scaledRank places rank)) :
    roundedRank places rank = rank := by
  rw [roundedRank]
  split
  · next hlimit =>
    have hhigh : magnitude (scaledRank places rank) < (2 * fractions : ℕ) :=
      magnitude_lt_iff.2 hlimit
    have hunits : fractions * unitsInOne ≤ units (scaledRank places rank) := by
      by_contra hlt
      exact hlow.not_gt (magnitude_lt_iff.2 (Nat.lt_of_not_le hlt))
    obtain ⟨whole, hwhole⟩ := unitsInOne_dvd_of_le hunits
    rw [Nat.mul_comm] at hwhole
    have hn : n ≤ 2 * fractions := by
      have hsmall := (readsAs_scaledRank places rank).lt_natCast le_rfl hhigh
      have hnear := abs_lt.1 (abs_scaled_sub_lt hplaces h (hsmall.trans_eq (mul_one _).symm))
      have hlt : (n : ℚ) < (2 * fractions : ℕ) + 1 := by linarith
      exact Nat.le_of_lt_succ (by exact_mod_cast hlt)
    rw [hwhole, roundDiv_mul_self .upward _ unitsInOne_pos]
    exact nearestRank_eq_of_readsAs (tenPow_pos places) (readsAs_of_nearest_whole hplaces h hn hlow
      hhigh (magnitude_eq_of_units hwhole))
  · rfl

/-- Only a numeral of at least `2^52` units is scaled to as much. -/
theorem fractions_le_of_scaled (hplaces : places ≤ maxPlaces)
    (h : ReadsAs (n / tenPow places) rank)
    (hlow : (fractions : ℚ) ≤ magnitude (scaledRank places rank)) : fractions ≤ n := by
  by_contra hlt
  obtain ⟨half, hhalf⟩ := exists_magnitude_eq (show 2 * fractions - 1 ≤ 2 * fractions by omega)
    (show 1 ≤ 1074 by decide)
  have hn : (n : ℚ) ≤ 4503599627370495 := by
    rw [fractions_eq] at hlt
    exact_mod_cast (by omega : n ≤ 4503599627370495)
  have hnear := scaled_near hplaces h
  have hhigh := le_abs_self (magnitude rank * tenPow places - n)
  have hlimit : (twoPow 53 : ℚ) = 9007199254740992 := by
    exact_mod_cast (rfl : twoPow 53 = 9007199254740992)
  have hlast : magnitude half = 9007199254740991 / 2 := by
    rw [hhalf, show 2 * fractions - 1 = 9007199254740991 from rfl, show twoPow 1 = 2 from rfl]
    norm_num
  rw [hlimit] at hnear
  have hscaled := (readsAs_scaledRank places rank).magnitude_le
    (show magnitude rank * tenPow places ≤ magnitude half by rw [hlast]; linarith)
  rw [hlast] at hscaled
  have hfirst : (fractions : ℚ) = 4503599627370496 := by exact_mod_cast fractions_eq
  linarith

theorem scaled_lt_of_small (hsmall : magnitude (scaledRank places rank) < fractions) :
    magnitude rank * tenPow places < twoPow 53 * (1 / 2 : ℚ) := by
  have hlt := (readsAs_scaledRank places rank).lt_natCast (by omega) hsmall
  rw [cast_twoPow_53]
  linarith

section Small

variable (hplaces : places ≤ maxPlaces) (h : ReadsAs (n / tenPow places) rank)
  (hsmall : magnitude (scaledRank places rank) < fractions)

include hplaces h hsmall

/-- The scaled magnitude does not lose more than half a unit. -/
theorem le_scaled_of_small : 2 * (n : ℚ) ≤ 2 * magnitude (scaledRank places rank) + 1 := by
  by_cases hn : n = 0
  · have hnonneg := magnitude_nonneg (scaledRank places rank)
    rw [hn, Nat.cast_zero]
    linarith
  · have hscaled := readsAs_scaledRank places rank
    have hnear := abs_lt.1 (abs_scaled_sub_lt hplaces h (scaled_lt_of_small hsmall))
    have hlt := hscaled.lt_natCast (by omega) hsmall
    have hbound : n ≤ fractions := by
      have hnext : (n : ℚ) < fractions + 1 := by linarith
      exact Nat.le_of_lt_succ (by exact_mod_cast hnext)
    obtain ⟨half, hhalf⟩ := exists_magnitude_eq (show 2 * n - 1 ≤ 2 * fractions by omega)
      (show 1 ≤ 1074 by decide)
    have hpred : ((2 * n - 1 : ℕ) : ℚ) = 2 * n - 1 := by
      rw [Nat.cast_sub (by omega)]
      push_cast
      rfl
    rw [hpred, show twoPow 1 = 2 from rfl] at hhalf
    push_cast at hhalf
    have hle := hscaled.magnitude_ge (show magnitude half ≤ _ by rw [hhalf]; linarith)
    linarith

theorem roundDiv_scaled_eq_iff :
    roundDiv .upward (units (scaledRank places rank)) unitsInOne = n ↔
      2 * magnitude (scaledRank places rank) < 2 * n + 1 := by
  rw [roundDiv_units_eq_iff]
  exact and_iff_right (le_scaled_of_small hplaces h hsmall)

/-- No other whole number reads back. -/
theorem roundedRank_eq_self_iff_of_small :
    roundedRank places rank = rank ↔
      roundDiv .upward (units (scaledRank places rank)) unitsInOne = n := by
  have hlimit : units (scaledRank places rank) < twoPow 53 * unitsInOne :=
    (magnitude_lt_iff.1 hsmall).trans_le (Nat.mul_le_mul_right _ (by decide))
  rw [roundedRank, if_pos hlimit]
  generalize roundDiv .upward (units (scaledRank places rank)) unitsInOne = whole
  constructor
  · intro heq
    have hreads := readsAs_nearestRank whole (tenPow_pos places)
    rw [heq] at hreads
    exact eq_of_readsAs hplaces (scaled_lt_of_small hsmall) h hreads
  · rintro rfl
    exact nearestRank_eq_of_readsAs (tenPow_pos places) h

/-- Below `2^51` there are quarters, and the error of the scaled magnitude is less than one. -/
theorem lt_half_of_lt (hn : n < twoPow 51) :
    2 * magnitude (scaledRank places rank) < 2 * n + 1 := by
  have hhalf := abs_lt.1 (abs_scaled_sub_lt hplaces h (scaled_lt_of_small hsmall))
  have hnext : (n : ℚ) + 1 ≤ twoPow 51 := by exact_mod_cast hn
  have hlimit : (twoPow 53 : ℚ) * (1 / 4) = twoPow 51 := by
    have hshift : twoPow 53 = 4 * twoPow 51 := rfl
    rw [hshift]
    push_cast
    ring
  have hfourth := abs_lt.1 (abs_scaled_sub_lt hplaces h
    (show magnitude rank * tenPow places < twoPow 53 * (1 / 4) by rw [hlimit]; linarith))
  have hbits : 4 * n + 1 ≤ 2 * fractions := by
    have hshift : 2 * fractions = 4 * twoPow 51 := rfl
    omega
  obtain ⟨quarter, hquarter⟩ := exists_magnitude_eq hbits (show 2 ≤ 1074 by decide)
  rw [show twoPow 2 = 4 from rfl] at hquarter
  push_cast at hquarter
  have hle := (readsAs_scaledRank places rank).magnitude_le
    (show _ ≤ magnitude quarter by rw [hquarter]; linarith)
  linarith

theorem lt_half_scaled_iff :
    2 * magnitude (scaledRank places rank) < 2 * n + 1 ↔
      n < twoPow 51 ∨ fractions ≤ n ∨ 4 * (magnitude rank * tenPow places - n) ≤ 1 := by
  by_cases hfew : n < twoPow 51
  · exact iff_of_true (lt_half_of_lt hplaces h hsmall hfew) (Or.inl hfew)
  by_cases hmany : fractions ≤ n
  · have hmanyq : (fractions : ℚ) ≤ n := by exact_mod_cast hmany
    exact iff_of_true (by linarith) (Or.inr (Or.inl hmany))
  · rw [lt_half_iff (Nat.le_of_not_lt hfew) (Nat.lt_of_not_le hmany)
      (readsAs_scaledRank places rank)]
    simp only [hfew, hmany, false_or]

end Small

/-- What reads back from a numeral of `n` units of the last place is left alone by rounding to
places, unless it has halves only when it is scaled and is more than a quarter above `n`. -/
theorem roundedRank_eq_self_iff (hplaces : places ≤ maxPlaces)
    (h : ReadsAs (n / tenPow places) rank) :
    roundedRank places rank = rank ↔
      n < twoPow 51 ∨ twoPow 52 ≤ n ∨ 4 * (magnitude rank * tenPow places - n) ≤ 1 := by
  by_cases hsmall : magnitude (scaledRank places rank) < fractions
  · rw [roundedRank_eq_self_iff_of_small hplaces h hsmall,
      roundDiv_scaled_eq_iff hplaces h hsmall, lt_half_scaled_iff hplaces h hsmall]
    rfl
  · have hlarge := le_of_not_gt hsmall
    exact iff_of_true (roundedRank_eq_self_of_large hplaces h hlarge)
      (Or.inr (Or.inl (fractions_le_of_scaled hplaces h hlarge)))

end Repetition

/-! ## Results -/

/-- A displayed number of `n` units of the last place is displayed as the same text again exactly if
`n` is less than `2^51` or at least `2^52`, or if the binary64 number that it reads as is not more
than a quarter of a unit greater. -/
theorem displayed_again_iff {x : Binary64} (hx : x.isFinite = true) (places : Int) :
    ∃ (negative : Bool) (w : Written) (rank : Fin rankLimit) (n : ℕ),
      Displays (clampPlaces places) (result places x) negative w ∧
        w.value = n * 10 ^ (-(clampPlaces places : ℤ)) ∧
        readBinary64? (result places x) = some (.finite negative rank) ∧
        (result places (.finite negative rank) = result places x ↔
          n < twoPow 51 ∨ twoPow 52 ≤ n ∨
            4 * (magnitude rank * tenPow (clampPlaces places) - n) ≤ 1) := by
  obtain ⟨negative, rank, htext, hrounded⟩ := exists_result_eq hx places
  have hdisplays := displays_written negative hrounded
  obtain ⟨n, hn⟩ := hdisplays.multiple
  have hreads : ReadsAs (n / tenPow (clampPlaces places)) rank := by
    rw [← mul_one_div, ← zpow_neg_places, ← hn]
    exact readsAs_written rank
  rw [htext]
  refine ⟨_, _, rank, n, hdisplays, hn, readBinary64?_written _ rank, ?_⟩
  rw [← roundedRank_eq_self_iff (clampPlaces_le places) hreads, result_finite]
  constructor
  · intro heq
    have hsame := ((isCanonical_written _).toIsNumeral.signed_inj
      (isCanonical_written _).toIsNumeral (String.ofList_injective heq)).2
    have hself := readsAs_written (roundedRank (clampPlaces places) rank)
    rw [hsame] at hself
    exact hself.eq (readsAs_written rank)
  · intro heq
    rw [heq, Bool.and_assoc, Bool.and_self]

/-- Two thirds, displayed to four places. -/
theorem two_thirds_displayed_again :
    (Literal.value ".6666666".toList).isFinite = true ∧
      ∃ (negative : Bool) (w : Written) (rank : Fin rankLimit) (n : ℕ),
        Displays (clampPlaces 4) (result 4 (Literal.value ".6666666".toList)) negative w ∧
          w.value = n * 10 ^ (-(clampPlaces 4 : ℤ)) ∧
          readBinary64? (result 4 (Literal.value ".6666666".toList)) =
            some (.finite negative rank) ∧
          (result 4 (.finite negative rank) = result 4 (Literal.value ".6666666".toList) ↔
            n < twoPow 51 ∨ twoPow 52 ≤ n ∨
              4 * (magnitude rank * tenPow (clampPlaces 4) - n) ≤ 1) := by
  have hfinite : (Literal.value ".6666666".toList).isFinite = true := by decide +kernel
  exact ⟨hfinite, displayed_again_iff hfinite 4⟩

/-- Just above `2^45` a number is displayed to two places, and as the next hundredth when it is
displayed again: not every displayed number is displayed as the same text. -/
theorem last_place_goes_up :
    result 2 (Literal.value "35184372088832.016".toList) = "35184372088832.02" ∧
      readBinary64? "35184372088832.02" = some (Literal.value "35184372088832.02".toList) ∧
      result 2 (Literal.value "35184372088832.02".toList) = "35184372088832.03" ∧
      ¬ ∀ (x : Binary64) (places : Int), x.isFinite = true →
        ∃ displayed, readBinary64? (result places x) = some displayed ∧
          result places displayed = result places x := by
  have hfirst : result 2 (Literal.value "35184372088832.016".toList) = "35184372088832.02" := by
    decide +kernel
  have hread : readBinary64? "35184372088832.02" =
      some (Literal.value "35184372088832.02".toList) := by decide +kernel
  have hsecond : result 2 (Literal.value "35184372088832.02".toList) = "35184372088832.03" := by
    decide +kernel
  refine ⟨hfirst, hread, hsecond, fun hall => ?_⟩
  obtain ⟨displayed, hdisplayed, hsame⟩ :=
    hall (Literal.value "35184372088832.016".toList) 2 (by decide +kernel)
  rw [hfirst, hread] at hdisplayed
  rw [← Option.some.inj hdisplayed, hfirst, hsecond] at hsame
  exact absurd hsame (by decide)

end Display

end Reckoner
