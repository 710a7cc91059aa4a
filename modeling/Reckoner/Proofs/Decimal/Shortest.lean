import Reckoner.Decimal.Shortest
import Reckoner.Proofs.Decimal.Value

/-!
# The shortest decimal that reads back

The search for the shortest decimal walks down the decimal grids and stops at the first one that
has a point which reads back. A grid is searched by its two points around the magnitude: whatever
point reads back, one of these two lies between it and the magnitude and reads back as well.

## Main results

* `readsAs_shortest`: the shortest decimal reads back.
* `exists_readsAs_of_le_spacing`: a grid that is no wider than the spacing of the magnitudes has a
  point that reads back, so seventeen digits always suffice.
* `onGrid_shortest`: above the subnormal magnitudes the shortest decimal lies on every grid that has
  a point which reads back.
-/

namespace Reckoner

namespace Decimal

open Binary64

/-! ## The points of a grid -/

section Grid

variable {rank j : Nat}

/-- The last point of the grid of `10^(j-340)` that is not above the magnitude. -/
def gridFloor (rank j : Nat) : Nat := scaled rank / (unitsInOne * tenPow j)

theorem zpow_sub_eq_div (j k : Nat) : (10 : ℚ) ^ ((j : ℤ) - (k : ℤ)) = tenPow j / tenPow k := by
  rw [tenPow_eq_pow, tenPow_eq_pow, zpow_sub₀ (by norm_num), zpow_natCast, zpow_natCast]
  push_cast
  rfl

/-- The width of a grid, in parts of the finest one. -/
theorem zpow_sub_finest (j : Nat) : (10 : ℚ) ^ ((j : ℤ) - 340) = tenPow j / finestScale :=
  zpow_sub_eq_div j 340

theorem cast_finestScale_pos : (0 : ℚ) < finestScale := Nat.cast_pos.2 (tenPow_pos 340)

theorem magnitude_eq_scaled (rank : Nat) :
    magnitude rank = scaled rank / (unitsInOne * finestScale) := by
  have hfine := cast_finestScale_pos.ne'
  rw [magnitude, scaled, Nat.cast_mul, mul_div_mul_right _ _ hfine]

theorem gridFloor_mul_le (rank j : Nat) :
    (gridFloor rank j : ℚ) * 10 ^ ((j : ℤ) - 340) ≤ magnitude rank := by
  have hle : gridFloor rank j * (unitsInOne * tenPow j) ≤ scaled rank :=
    Nat.div_mul_le_self _ _
  have hleq : (gridFloor rank j * (unitsInOne * tenPow j) : ℚ) ≤ scaled rank := by
    exact_mod_cast hle
  have hfine := cast_finestScale_pos
  have hunits := cast_unitsInOne_pos
  rw [zpow_sub_finest, magnitude_eq_scaled, le_div_iff₀ (mul_pos hunits hfine)]
  generalize (finestScale : ℚ) = fine at *
  generalize (unitsInOne : ℚ) = one at *
  calc (gridFloor rank j : ℚ) * (tenPow j / fine) * (one * fine)
      = gridFloor rank j * (one * tenPow j) := by field_simp
    _ ≤ scaled rank := hleq

theorem lt_gridFloor_succ (rank j : Nat) :
    magnitude rank < (gridFloor rank j + 1) * 10 ^ ((j : ℤ) - 340) := by
  have hpos : 0 < unitsInOne * tenPow j := Nat.mul_pos unitsInOne_pos (tenPow_pos j)
  have hlt : scaled rank < (gridFloor rank j + 1) * (unitsInOne * tenPow j) :=
    Nat.lt_mul_of_div_lt (Nat.lt_succ_self _) hpos
  have hltq : (scaled rank : ℚ) < (gridFloor rank j + 1) * (unitsInOne * tenPow j) := by
    exact_mod_cast hlt
  have hfine := cast_finestScale_pos
  have hunits := cast_unitsInOne_pos
  rw [zpow_sub_finest, magnitude_eq_scaled, div_lt_iff₀ (mul_pos hunits hfine)]
  generalize (finestScale : ℚ) = fine at *
  generalize (unitsInOne : ℚ) = one at *
  calc (scaled rank : ℚ) < (gridFloor rank j + 1) * (one * tenPow j) := hltq
    _ = (gridFloor rank j + 1) * (tenPow j / fine) * (one * fine) := by field_simp

theorem readsBack_iff {digits : Nat} :
    readsBack rank digits (tenPow j) = true ↔
      ReadsAs (digits * 10 ^ ((j : ℤ) - 340)) rank := by
  have hquotient : ((digits * tenPow j * unitsInOne : ℕ) : ℚ) / finestScale =
      digits * 10 ^ ((j : ℤ) - 340) * unitsInOne := by
    rw [zpow_sub_finest]
    push_cast
    ring
  have hfine : 0 < finestScale := tenPow_pos 340
  rw [readsBack, beq_iff_eq, nearestRank_eq_iff hfine, ReadsAs, hquotient]

/-- What is found on a grid reads back. -/
theorem readsBack_of_onGrid? {digits step : Nat} (h : onGrid? rank step = some digits) :
    readsBack rank digits step = true := by
  have hfloor := le_roundDiv .toEven (scaled rank) (unitsInOne * step)
  have hceil := roundDiv_le .toEven (scaled rank) (unitsInOne * step)
  unfold onGrid? at h
  generalize roundDiv .toEven (scaled rank) (unitsInOne * step) = rounded at *
  generalize scaled rank / (unitsInOne * step) = low at *
  by_cases hlow : readsBack rank low step = true
  · rw [if_pos hlow] at h
    by_cases hhigh : readsBack rank (low + 1) step = true
    · rw [if_pos hhigh] at h
      obtain rfl := Option.some.inj h
      rcases Nat.lt_or_eq_of_le hfloor with hlt | heq
      · rw [Nat.le_antisymm hceil hlt]
        exact hhigh
      · rw [← heq]
        exact hlow
    · rw [if_neg hhigh] at h
      obtain rfl := Option.some.inj h
      exact hlow
  · rw [if_neg hlow] at h
    by_cases hhigh : readsBack rank (low + 1) step = true
    · rw [if_pos hhigh] at h
      obtain rfl := Option.some.inj h
      exact hhigh
    · rw [if_neg hhigh] at h
      cases h

/-- A grid is not found empty if one of the two points around the magnitude reads back. -/
theorem exists_onGrid?_eq_some_of_readsBack {step : Nat}
    (h : readsBack rank (scaled rank / (unitsInOne * step)) step = true ∨
      readsBack rank (scaled rank / (unitsInOne * step) + 1) step = true) :
    ∃ digits, onGrid? rank step = some digits := by
  unfold onGrid?
  generalize scaled rank / (unitsInOne * step) = low at *
  by_cases hlow : readsBack rank low step = true
  · rw [if_pos hlow]
    by_cases hhigh : readsBack rank (low + 1) step = true
    · exact ⟨_, if_pos hhigh⟩
    · exact ⟨_, if_neg hhigh⟩
  · rw [if_neg hlow]
    exact ⟨_, if_pos (h.resolve_left hlow)⟩

/-- If any point of a grid reads back, one is found. -/
theorem exists_onGrid?_eq_some {n : Nat} (h : ReadsAs (n * 10 ^ ((j : ℤ) - 340)) rank) :
    ∃ digits, onGrid? rank (tenPow j) = some digits := by
  have hstep : (0 : ℚ) < 10 ^ ((j : ℤ) - 340) := by positivity
  have hfloor := gridFloor_mul_le rank j
  have hceil := lt_gridFloor_succ rank j
  have hneighbour : readsBack rank (gridFloor rank j) (tenPow j) = true ∨
      readsBack rank (gridFloor rank j + 1) (tenPow j) = true := by
    by_cases hn : n ≤ gridFloor rank j
    · have hnq : (n : ℚ) ≤ gridFloor rank j := by exact_mod_cast hn
      exact Or.inl (readsBack_iff.2 (h.of_between (readsAs_magnitude rank)
        (mul_le_mul_of_nonneg_right hnq hstep.le) hfloor))
    · have hnq : ((gridFloor rank j + 1 : ℕ) : ℚ) ≤ n := by exact_mod_cast (by omega)
      refine Or.inr (readsBack_iff.2 ((readsAs_magnitude rank).of_between h ?_
        (mul_le_mul_of_nonneg_right hnq hstep.le)))
      push_cast
      exact hceil.le
  exact exists_onGrid?_eq_some_of_readsBack hneighbour

/-- A grid that is no wider than the spacing of the magnitudes has a point that reads back. -/
theorem exists_readsAs_of_le_spacing {before : Nat}
    (h : (10 : ℚ) ^ ((j : ℤ) - 340) * unitsInOne ≤ spacing before) :
    ∃ n : ℕ, ReadsAs (n * 10 ^ ((j : ℤ) - 340)) (before + 1) := by
  have hunits := cast_unitsInOne_pos
  have hfloor := gridFloor_mul_le (before + 1) j
  have hceil := lt_gridFloor_succ (before + 1) j
  have hmagnitude := magnitude_mul_unitsInOne (before + 1)
  generalize gridFloor (before + 1) j = low at *
  generalize (10 : ℚ) ^ ((j : ℤ) - 340) = step at *
  rcases h.lt_or_eq with hlt | heq
  · -- The nearer one of the two neighbours is nearer than half the spacing.
    have hnear : ∀ n : ℕ, 2 * |n * step - magnitude (before + 1)| ≤ step →
        ReadsAs (n * step) (before + 1) := by
      intro n hn
      refine isNearest_of_lt_spacing (lt_of_le_of_lt ?_ hlt)
      rw [← hmagnitude, ← sub_mul, abs_mul, abs_of_pos hunits, ← mul_assoc]
      exact mul_le_mul_of_nonneg_right hn hunits.le
    by_cases hhalf : 2 * (magnitude (before + 1) - low * step) ≤ step
    · refine ⟨low, hnear low ?_⟩
      rw [abs_sub_comm, abs_of_nonneg (by linarith)]
      exact hhalf
    · refine ⟨low + 1, hnear (low + 1) ?_⟩
      push_cast
      rw [abs_of_nonneg (by linarith)]
      linarith
  · -- The magnitude itself is a point of the grid.
    obtain ⟨m, hm⟩ : spacing before ∣ units (before + 1) := by
      rw [units_succ]
      exact Nat.dvd_add (spacing_dvd_units before) (Nat.dvd_refl _)
    refine ⟨m, ?_⟩
    have hself := isNearest_units (before + 1)
    rw [hm, Nat.cast_mul, ← heq] at hself
    rw [ReadsAs, mul_assoc, mul_comm]
    exact hself

end Grid

/-! ## The search -/

theorem findSome?_range_eq_some {α : Type} {f : Nat → Option α} {n : Nat} {a : α}
    (h : (List.range n).findSome? f = some a) :
    ∃ k < n, f k = some a ∧ ∀ i < k, f i = none := by
  induction n with
  | zero => cases h
  | succ n ih =>
      rw [List.range_succ, List.findSome?_append] at h
      cases hfound : (List.range n).findSome? f with
      | some b =>
          rw [hfound] at h
          obtain ⟨k, hk, hsome, hnone⟩ := ih (hfound.trans h)
          exact ⟨k, by omega, hsome, hnone⟩
      | none =>
          rw [hfound] at h
          refine ⟨n, Nat.lt_succ_self n, by simpa using h, ?_⟩
          intro i hi
          exact List.findSome?_eq_none_iff.1 hfound i (List.mem_range.2 hi)

section Search

variable {rank : Nat}

theorem units_ne_zero (h : rank ≠ 0) : 1 ≤ units rank := units_pos (Nat.pos_of_ne_zero h)

/-- Every magnitude but zero has seventeen digits down to the finest grid. -/
theorem le_scaledLength (h : rank ≠ 0) : 17 ≤ scaledLength rank := by
  have hone : tenPow 16 * unitsInOne ≤ finestScale := by decide +kernel
  have hscaled : finestScale ≤ scaled rank := Nat.le_mul_of_pos_left _ (units_ne_zero h)
  have hle : tenPow 16 ≤ scaled rank / unitsInOne :=
    (Nat.le_div_iff_mul_le unitsInOne_pos).2 (hone.trans hscaled)
  have hlt := lt_tenPow_decimalLength (scaled rank / unitsInOne)
  by_contra hshort
  have := tenPow_le (show decimalLength (scaled rank / unitsInOne) ≤ 16 by
    rw [scaledLength] at hshort
    omega)
  omega

theorem magnitude_lt (rank : Nat) : magnitude rank < 10 ^ ((scaledLength rank : ℤ) - 340) := by
  have hlt := lt_tenPow_decimalLength (scaled rank / unitsInOne)
  have hscaled : scaled rank < tenPow (scaledLength rank) * unitsInOne :=
    (Nat.div_lt_iff_lt_mul unitsInOne_pos).1 hlt
  have hscaledq : (scaled rank : ℚ) < tenPow (scaledLength rank) * unitsInOne := by
    exact_mod_cast hscaled
  have hfine := cast_finestScale_pos
  have hunits := cast_unitsInOne_pos
  rw [zpow_sub_finest, magnitude_eq_scaled, div_lt_div_iff₀ (mul_pos hunits hfine) hfine]
  calc (scaled rank : ℚ) * finestScale
      < tenPow (scaledLength rank) * unitsInOne * finestScale :=
        mul_lt_mul_of_pos_right hscaledq hfine
    _ = tenPow (scaledLength rank) * (unitsInOne * finestScale) := by ring

theorem le_magnitude (h : rank ≠ 0) :
    (10 : ℚ) ^ (((scaledLength rank - 1 : ℕ) : ℤ) - 340) ≤ magnitude rank := by
  have hlength := le_scaledLength h
  have hpos : 0 < scaled rank / unitsInOne := by
    by_contra hzero
    have hone : scaledLength rank = 1 := by
      rw [scaledLength, Nat.eq_zero_of_not_pos hzero]
      decide +kernel
    omega
  have hle := tenPow_le_of_decimalLength hpos
  have hscaled : tenPow (scaledLength rank - 1) * unitsInOne ≤ scaled rank :=
    (Nat.le_div_iff_mul_le unitsInOne_pos).1 hle
  have hscaledq : (tenPow (scaledLength rank - 1) * unitsInOne : ℚ) ≤ scaled rank := by
    exact_mod_cast hscaled
  have hfine := cast_finestScale_pos
  have hunits := cast_unitsInOne_pos
  rw [zpow_sub_finest, magnitude_eq_scaled, div_le_div_iff₀ hfine (mul_pos hunits hfine)]
  calc (tenPow (scaledLength rank - 1) : ℚ) * (unitsInOne * finestScale)
      = tenPow (scaledLength rank - 1) * unitsInOne * finestScale := by ring
    _ ≤ scaled rank * finestScale := mul_le_mul_of_nonneg_right hscaledq hfine.le

/-- Seventeen digits suffice. -/
theorem exists_readsAs_seventeen (h : rank ≠ 0) :
    ∃ n : ℕ, ReadsAs (n * 10 ^ (((scaledLength rank - 17 : ℕ) : ℤ) - 340)) rank := by
  obtain ⟨before, rfl⟩ : ∃ before, rank = before + 1 := ⟨rank - 1, by omega⟩
  refine exists_readsAs_of_le_spacing ?_
  have hlength := le_scaledLength h
  have hlow := le_magnitude h
  have hmagnitude := magnitude_mul_unitsInOne (before + 1)
  have hunits := cast_unitsInOne_pos
  have hsplit : (((scaledLength (before + 1) - 1 : ℕ) : ℤ) - 340) =
      (((scaledLength (before + 1) - 17 : ℕ) : ℤ) - 340) + 16 := by omega
  rw [hsplit, zpow_add₀ (by norm_num)] at hlow
  have hspacing : (units (before + 1) : ℚ) ≤ twoPow 53 * spacing before := by
    have hle := units_succ_le before
    exact_mod_cast hle
  generalize (10 : ℚ) ^ (((scaledLength (before + 1) - 17 : ℕ) : ℤ) - 340) = step at *
  have hscaled := mul_le_mul_of_nonneg_right hlow hunits.le
  rw [hmagnitude] at hscaled
  have hpos : (0 : ℚ) ≤ spacing before := Nat.cast_nonneg _
  have hbits : (twoPow 53 : ℚ) ≤ 10 ^ (16 : ℤ) := by
    exact_mod_cast (by decide +kernel : twoPow 53 ≤ tenPow 16)
  generalize (unitsInOne : ℚ) = one at *
  have hbound := mul_le_mul_of_nonneg_right hbits hpos
  refine le_of_mul_le_mul_right ?_ (show (0 : ℚ) < 10 ^ (16 : ℤ) by positivity)
  linarith

/-- What the search ends with: the first grid that has a point which reads back. -/
theorem shortest_eq (h : rank ≠ 0) :
    ∃ places digits, 1 ≤ places ∧ places ≤ 17 ∧
      onGrid? rank (tenPow (scaledLength rank - places)) = some digits ∧
      (∀ fewer, 1 ≤ fewer → fewer < places →
        onGrid? rank (tenPow (scaledLength rank - fewer)) = none) ∧
      shortest rank = stripZeros ⟨digits, ((scaledLength rank - places : ℕ) : ℤ) - 340⟩ := by
  have hlength := le_scaledLength h
  rw [shortest, if_neg h]
  simp only
  cases hfound :
    (List.range 17).findSome? fun n => withPlaces? rank (scaledLength rank) (n + 1) with
  | none =>
      exfalso
      obtain ⟨n, hn⟩ := exists_readsAs_seventeen h
      obtain ⟨digits, hdigits⟩ := exists_onGrid?_eq_some hn
      have hnone := List.findSome?_eq_none_iff.1 hfound 16 (by decide)
      rw [withPlaces?, hdigits] at hnone
      cases hnone
  | some d =>
      obtain ⟨k, hk, hsome, hnone⟩ := findSome?_range_eq_some hfound
      obtain ⟨digits, hdigits, rfl⟩ := Option.map_eq_some_iff.1 hsome
      refine ⟨k + 1, digits, by omega, by omega, hdigits, ?_, ?_⟩
      · intro fewer hpos hfewer
        have hother := hnone (fewer - 1) (by omega)
        rw [withPlaces?, Option.map_eq_none_iff, Nat.sub_add_cancel hpos] at hother
        exact hother
      · rw [Option.getD_some]
        congr 2
        omega

/-- The shortest decimal reads back. -/
theorem readsAs_shortest (rank : Nat) : ReadsAs (shortest rank).value rank := by
  by_cases h : rank = 0
  · subst h
    have hzero : (shortest 0).value = magnitude 0 := by
      rw [magnitude_eq_of_units (n := 0) (by decide), shortest, if_pos rfl, value]
      norm_num
    rw [hzero]
    exact readsAs_magnitude 0
  · obtain ⟨places, digits, -, -, hfound, -, heq⟩ := shortest_eq h
    rw [heq, value_stripZeros]
    exact readsBack_iff.1 (readsBack_of_onGrid? hfound)

/-- The shortest decimal of a magnitude other than zero has no zero at its end. -/
theorem digits_shortest_mod (h : rank ≠ 0) : (shortest rank).digits % 10 ≠ 0 := by
  have hreads := readsAs_shortest rank
  obtain ⟨places, digits, -, -, -, -, heq⟩ := shortest_eq h
  rw [heq] at hreads ⊢
  refine digits_stripZeros_mod _ ?_
  rintro rfl
  rw [value_stripZeros, value, Nat.cast_zero, zero_mul] at hreads
  exact h (hreads.eq readsAs_zero)

/-- A grid so coarse that the magnitude is below its tenth point has at most one point that reads
back, unless the magnitude is subnormal. -/
theorem le_of_readsAs_of_lt_ten {a b : Nat} {step : ℚ} (hnormal : fractions ≤ rank)
    (hstep : 0 < step) (hcoarse : magnitude rank < 10 * step) (ha : ReadsAs (a * step) rank)
    (hb : ReadsAs (b * step) rank) : a ≤ b := by
  have hunits := cast_unitsInOne_pos
  have hmagnitude := magnitude_mul_unitsInOne rank
  have hspacing : (fractions * spacing rank : ℚ) ≤ units rank := by
    exact_mod_cast spacing_le hnormal
  have hfractions : (10 : ℚ) ≤ fractions := by exact_mod_cast (by decide : 10 ≤ fractions)
  have hapart := ha.sub_le_spacing (Nat.lt_of_lt_of_le (by decide) hnormal) hb
  generalize (unitsInOne : ℚ) = one at *
  by_contra hlt
  have hsucc : (b + 1 : ℚ) ≤ a := by exact_mod_cast (by omega : b + 1 ≤ a)
  have hone : step * one ≤ a * step * one - b * step * one := by
    have hle := mul_le_mul_of_nonneg_right hsucc (mul_pos hstep hunits).le
    linarith
  have hten : 10 * (spacing rank : ℚ) ≤ fractions * spacing rank :=
    mul_le_mul_of_nonneg_right hfractions (Nat.cast_nonneg _)
  have hless := mul_lt_mul_of_pos_right hcoarse hunits
  linarith

/-- Above the subnormal magnitudes the shortest decimal is a point of every grid that has a point
which reads back. -/
theorem onGrid_shortest {e : Int} {n : Nat} (hnormal : fractions ≤ rank)
    (h : ReadsAs (n * 10 ^ e) rank) : OnGrid e (shortest rank).value := by
  have hne : rank ≠ 0 := (Nat.lt_of_lt_of_le (by decide) hnormal).ne'
  have hlength := le_scaledLength hne
  obtain ⟨places, digits, hpos, hplaces, hfound, hnone, heq⟩ := shortest_eq hne
  have hreads := readsBack_iff.1 (readsBack_of_onGrid? hfound)
  have hvalue : (shortest rank).value =
      digits * 10 ^ (((scaledLength rank - places : ℕ) : ℤ) - 340) := by
    rw [heq, value_stripZeros, value]
  have hfew : ∀ {fewer m : ℕ}, 1 ≤ fewer → fewer ≤ 17 →
      ReadsAs (m * 10 ^ (((scaledLength rank - fewer : ℕ) : ℤ) - 340)) rank → places ≤ fewer := by
    intro fewer m hfewer _ hm
    by_contra hlt
    obtain ⟨other, hother⟩ := exists_onGrid?_eq_some hm
    rw [hnone fewer hfewer (by omega)] at hother
    cases hother
  by_cases hcoarse : (scaledLength rank : ℤ) - 340 ≤ e
  · -- A grid that is coarser than the magnitude: of one digit there is only one candidate.
    have hone : OnGrid (((scaledLength rank - 1 : ℕ) : ℤ) - 340) (n * 10 ^ e) :=
      OnGrid.of_le ⟨n, rfl⟩ (by omega)
    obtain ⟨m, hm⟩ := hone
    rw [hm] at h
    obtain rfl : places = 1 := Nat.le_antisymm (hfew le_rfl (by omega) h) hpos
    have hstep : (0 : ℚ) < 10 ^ (((scaledLength rank - 1 : ℕ) : ℤ) - 340) := by positivity
    have hten : magnitude rank < 10 * 10 ^ (((scaledLength rank - 1 : ℕ) : ℤ) - 340) := by
      have hlt := magnitude_lt rank
      rw [show (scaledLength rank : ℤ) - 340 =
        1 + (((scaledLength rank - 1 : ℕ) : ℤ) - 340) by omega, zpow_add₀ (by norm_num)] at hlt
      simpa using hlt
    have hsame : digits = m := Nat.le_antisymm
      (le_of_readsAs_of_lt_ten hnormal hstep hten hreads h)
      (le_of_readsAs_of_lt_ten hnormal hstep hten h hreads)
    rw [hvalue, hsame, ← hm]
    exact ⟨n, rfl⟩
  · -- The search stops at this grid or before it.
    have hgrid : e ≤ ((scaledLength rank - places : ℕ) : ℤ) - 340 := by
      by_contra hlt
      have hj :
          (((scaledLength rank - (scaledLength rank - 340 - e).toNat : ℕ) : ℤ) - 340) = e := by
        omega
      have := @hfew (scaledLength rank - 340 - e).toNat n (by omega) (by omega) (by rwa [hj])
      omega
    rw [hvalue]
    exact OnGrid.of_le ⟨digits, rfl⟩ hgrid

end Search

end Decimal

end Reckoner
