import Reckoner.Proofs.Display.Canonical

/-!
# Displayed results keep order and sign

Rounding to places scales a magnitude, rounds it to a whole number and scales it back, or leaves it
alone if the scaled magnitude has reached `2^53`. Each of these steps keeps the order of magnitudes.
So does the change from one way to the other: what is rounded becomes at most `2^53 - 1` before it
is scaled back, and what is left alone was at least `2^53 - 1/2`. The numeral in which a magnitude
is written, with or without an exponent, is one that reads back, and of two numerals that read back
as different magnitudes the one of the greater magnitude stands for the greater number.

The sign takes no part in any of this. It is written in front of the numeral, except in front of
zero.

## Main results

* `Denotes.unique`: a text stands for one number at most.
* `roundedRank_mono`: rounding to places keeps the order of magnitudes.
* `value_written_mono`: so does writing them.
* `result_keeps_order_and_sign`: the results of finite numbers.
-/

namespace Reckoner

open Binary64 Decimal

/-! ## The number that a text stands for -/

/-- A number under a sign. -/
def signed (negative : Bool) (v : ℚ) : ℚ := if negative then -v else v

theorem abs_signed (negative : Bool) (v : ℚ) : |signed negative v| = |v| := by
  cases negative
  · rfl
  · exact abs_neg v

/-- A magnitude under a minus sign is negative, unless it is zero. -/
theorem signed_lt_zero_iff {v : ℚ} (hv : 0 ≤ v) (negative : Bool) :
    signed negative v < 0 ↔ negative = true ∧ v ≠ 0 := by
  cases negative with
  | false => simp [signed, hv]
  | true => simp [signed, lt_iff_le_and_ne, hv]

/-- The text is a written number after its sign, and `v` is the number that it stands for. -/
def Denotes (text : String) (v : ℚ) : Prop :=
  ∃ negative w, Written.IsNumeral w ∧
    text = String.ofList (signChars negative ++ w.chars) ∧ v = signed negative w.value

/-- The sign and the parts of a written number can be told from its characters. -/
theorem Written.IsNumeral.signed_inj {v w : Written} (hv : v.IsNumeral) (hw : w.IsNumeral)
    {a b : Bool} (h : signChars a ++ v.chars = signChars b ++ w.chars) : a = b ∧ v = w := by
  have hsplit := Written.splitSign_chars hv a
  rw [h, Written.splitSign_chars hw b] at hsplit
  obtain ⟨rfl, hchars⟩ := Prod.mk.inj hsplit
  exact ⟨rfl, hv.eq_of_chars hw hchars.symm⟩

/-- A text stands for one number at most. -/
theorem Denotes.unique {text : String} {u v : ℚ} (hu : Denotes text u) (hv : Denotes text v) :
    u = v := by
  obtain ⟨a, w, hw, rfl, rfl⟩ := hu
  obtain ⟨b, z, hz, htext, rfl⟩ := hv
  obtain ⟨rfl, rfl⟩ := hw.signed_inj hz (String.ofList_injective htext)
  rfl

namespace Display

/-! ## Rounding keeps the order -/

section Rounding

variable {places a b : Nat}

theorem scaledRank_mono (places : Nat) (h : a ≤ b) : scaledRank places a ≤ scaledRank places b :=
  (readsAs_scaledRank places a).mono (readsAs_scaledRank places b)
    (mul_le_mul_of_nonneg_right (magnitude_mono h) (Nat.cast_nonneg _))

/-- The magnitude before `2^53` is one less. -/
theorem units_le_of_lt_twoPow {rank : Nat} (h : units rank < twoPow 53 * unitsInOne) :
    units rank ≤ (twoPow 53 - 1) * unitsInOne := by
  have hlast : units (1074 * fractions + (twoPow 53 - 1)) = (twoPow 53 - 1) * unitsInOne :=
    units_eq_mul (by decide) (Or.inr (by decide))
  have hfirst : units (1074 * fractions + (twoPow 53 - 1) + 1) = twoPow 53 * unitsInOne :=
    units_eq_mul (k := 1074) (m := twoPow 53) (by decide) (Or.inr (by decide))
  rw [← hfirst] at h
  rw [← hlast]
  exact units_le_units (Nat.le_of_lt_succ (lt_of_units_lt h))

/-- What is rounded is not rounded beyond what is left alone. -/
theorem whole_le_of_large (hsmall : units (scaledRank places a) < twoPow 53 * unitsInOne)
    (hlarge : twoPow 53 * unitsInOne ≤ units (scaledRank places b)) :
    (roundDiv .upward (units (scaledRank places a)) unitsInOne : ℚ) / tenPow places ≤
      magnitude b := by
  have hpos := cast_tenPow_pos places
  have hone := cast_unitsInOne_pos
  have hwhole : roundDiv .upward (units (scaledRank places a)) unitsInOne ≤ twoPow 53 - 1 := by
    have hmono := roundDiv_upward_mono unitsInOne_pos (units_le_of_lt_twoPow hsmall)
    rwa [roundDiv_mul_self .upward _ unitsInOne_pos] at hmono
  have hscaled := le_of_readsAs_large hlarge (readsAs_scaledRank places b)
  rw [← mul_assoc] at hscaled
  have hfar := le_of_mul_le_mul_right hscaled hone
  rw [div_le_iff₀ hpos]
  have hwholeq : (roundDiv .upward (units (scaledRank places a)) unitsInOne : ℚ) ≤
      (twoPow 53 - 1 : ℕ) := by exact_mod_cast hwhole
  have hconst : (2 * (twoPow 53 - 1 : ℕ) : ℚ) ≤ (2 * twoPow 53 - 1 : ℕ) := by
    exact_mod_cast (by decide : 2 * (twoPow 53 - 1) ≤ 2 * twoPow 53 - 1)
  linarith

/-- Rounding to places keeps the order of magnitudes. -/
theorem roundedRank_mono (places : Nat) (h : a ≤ b) :
    roundedRank places a ≤ roundedRank places b := by
  have hpos := cast_tenPow_pos places
  have hscaled := units_le_units (scaledRank_mono places h)
  rw [roundedRank, roundedRank]
  by_cases hb : units (scaledRank places b) < twoPow 53 * unitsInOne
  · -- Both are rounded.
    rw [if_pos (hscaled.trans_lt hb), if_pos hb]
    have hwhole := roundDiv_upward_mono unitsInOne_pos hscaled
    refine (readsAs_nearestRank _ (tenPow_pos places)).mono
      (readsAs_nearestRank _ (tenPow_pos places)) (div_le_div_of_nonneg_right ?_ hpos.le)
    exact_mod_cast hwhole
  · rw [if_neg hb]
    by_cases ha : units (scaledRank places a) < twoPow 53 * unitsInOne
    · -- The smaller one is rounded, the greater one is left alone.
      rw [if_pos ha]
      exact (readsAs_nearestRank _ (tenPow_pos places)).mono (readsAs_magnitude b)
        (whole_le_of_large ha (Nat.le_of_not_lt hb))
    · rw [if_neg ha]
      exact h

theorem roundedRank_zero (places : Nat) : roundedRank places 0 = 0 := by
  have hunits : units 0 = 0 := rfl
  have hzero := readsAs_zero
  have hscaled : scaledRank places 0 = 0 := by
    refine (readsAs_scaledRank places 0).eq ?_
    rwa [magnitude_zero, zero_mul]
  have hsmall : units (scaledRank places 0) < twoPow 53 * unitsInOne := by
    rw [hscaled, hunits]
    exact Nat.mul_pos (twoPow_pos 53) unitsInOne_pos
  have hwhole : roundDiv .upward 0 unitsInOne = 0 := by
    have hself := roundDiv_mul_self .upward 0 unitsInOne_pos
    rwa [Nat.zero_mul] at hself
  rw [roundedRank, if_pos hsmall, hscaled, hunits, hwhole]
  refine (readsAs_nearestRank 0 (tenPow_pos places)).eq ?_
  rwa [Nat.cast_zero, zero_div]

end Rounding

/-! ## Writing keeps the order -/

theorem value_written_mono {a b : Nat} (h : a ≤ b) : (written a).value ≤ (written b).value := by
  by_contra hlt
  have hle := (readsAs_written b).mono (readsAs_written a) (le_of_not_ge hlt)
  rw [Nat.le_antisymm h hle] at hlt
  exact hlt le_rfl

theorem value_written_zero : (written 0).value = 0 := by
  rw [written, if_pos ⟨rfl, by decide +kernel⟩, Written.value_ofNat, units_of_lt (by decide),
    Nat.zero_div, Nat.cast_zero]

theorem value_written_ne_zero_iff {rank : Nat} : (written rank).value ≠ 0 ↔ rank ≠ 0 := by
  refine ⟨?_, fun hne hzero => hne (value_written_eq_zero hzero)⟩
  rintro hne rfl
  exact hne value_written_zero

/-! ## The numbers of results -/

/-- The number that the result of a finite number stands for. -/
theorem denotes_result_iff (places : Int) (negative : Bool) (rank : Fin rankLimit) (v : ℚ) :
    Denotes (result places (.finite negative rank)) v ↔
      v = signed negative (written (roundedRank (clampPlaces places) rank)).value := by
  have hdenotes : Denotes (result places (.finite negative rank))
      (signed negative (written (roundedRank (clampPlaces places) rank)).value) := by
    refine ⟨_, _, (isCanonical_written _).toIsNumeral, result_finite places negative rank, ?_⟩
    by_cases hzero : roundedRank (clampPlaces places) rank = 0
    · simp [signed, hzero, value_written_zero]
    · rw [bne_iff_ne.2 hzero, Bool.and_true]
  constructor
  · intro h
    exact h.unique hdenotes
  · rintro rfl
    exact hdenotes

/-- The place of a finite number on the line. -/
theorem place_le_of_le {a b : Bool} {r s : Fin rankLimit}
    (h : (Binary64.finite a r).lt (.finite b s) = true ∨
      (Binary64.finite a r).equals (.finite b s) = true) :
    (if a then -(r.val : ℤ) else r.val) ≤ if b then -(s.val : ℤ) else s.val := by
  rcases h with h | h
  · exact (of_decide_eq_true h).le
  · exact (beq_iff_eq.1 h).le

theorem signed_written_mono {a b : Bool} {r s : Nat} (places : Nat)
    (h : (if a then -(r : ℤ) else r) ≤ if b then -(s : ℤ) else s) :
    signed a (written (roundedRank places r)).value ≤
      signed b (written (roundedRank places s)).value := by
  have hr := (written (roundedRank places r)).value_nonneg
  have hs := (written (roundedRank places s)).value_nonneg
  cases a <;> cases b <;> simp only [signed, if_true, Bool.false_eq_true, if_false] at h ⊢
  · exact value_written_mono (roundedRank_mono places (by omega))
  · -- Both are zero.
    obtain ⟨rfl, rfl⟩ : r = 0 ∧ s = 0 := by omega
    rw [roundedRank_zero, value_written_zero, neg_zero]
  · linarith
  · exact neg_le_neg (value_written_mono (roundedRank_mono places (by omega)))

/-- The result is "0" exactly if the magnitude is rounded to zero, so the sign does not matter. -/
theorem result_eq_zero_iff {places : Int} {negative : Bool} {rank : Fin rankLimit} :
    result places (.finite negative rank) = "0" ↔ roundedRank (clampPlaces places) rank = 0 := by
  rw [result_finite]
  constructor
  · intro h
    have hzero : "0" = String.ofList (signChars false ++ (written 0).chars) := by
      rw [chars_written_zero]
      rfl
    rw [hzero] at h
    have hsame := (isCanonical_written _).toIsNumeral.signed_inj
      (isCanonical_written 0).toIsNumeral (String.ofList_injective h)
    refine value_written_eq_zero ?_
    rw [hsame.2, value_written_zero]
  · intro h
    rw [h, chars_written_zero]
    simp [signChars]

/-- The text with a minus sign in front of it, or without the one that is there. -/
def toggleSign (text : String) : String :=
  match text.toList with
  | '-' :: rest => String.ofList rest
  | cs => String.ofList ('-' :: cs)

theorem toggleSign_written {w : Written} (hw : w.IsNumeral) (negative : Bool) :
    toggleSign (String.ofList (signChars negative ++ w.chars)) =
      String.ofList (signChars (!negative) ++ w.chars) := by
  cases negative with
  | true =>
      rw [toggleSign, String.toList_ofList]
      rfl
  | false =>
      obtain ⟨c, rest, hwhole, hdigit⟩ := hw.exists_head
      have hminus : c ≠ '-' := by
        rintro rfl
        exact absurd hdigit (by decide)
      rw [toggleSign, String.toList_ofList, Written.chars, hwhole]
      simp [signChars, hminus]

/-- The numbers that results stand for are ordered as the finite numbers themselves, whatever the
places, and the results of opposite numbers differ in their sign only, or are both zero. -/
theorem result_keeps_order_and_sign (places : Int) :
    (∀ x y : Binary64, x.isFinite = true → y.isFinite = true →
      (x.lt y = true ∨ x.equals y = true) →
        ∃ a b, (∀ v, Denotes (result places x) v ↔ v = a) ∧
          (∀ v, Denotes (result places y) v ↔ v = b) ∧ a ≤ b) ∧
      ∀ x : Binary64, x.isFinite = true →
        (result places x.neg = "0" ↔ result places x = "0") ∧
          (result places x ≠ "0" → result places x.neg = toggleSign (result places x)) := by
  refine ⟨fun x y hx hy hle => ?_, fun x hx => ?_⟩
  · cases x with
    | nan => cases hx
    | infinite negative => cases hx
    | finite a r =>
        cases y with
        | nan => cases hy
        | infinite negative => cases hy
        | finite b s =>
            exact ⟨_, _, denotes_result_iff places a r, denotes_result_iff places b s,
              signed_written_mono (clampPlaces places) (place_le_of_le hle)⟩
  · cases x with
    | nan => cases hx
    | infinite negative => cases hx
    | finite negative rank =>
        rw [neg, result_eq_zero_iff, result_eq_zero_iff]
        refine ⟨Iff.rfl, fun hzero => ?_⟩
        rw [Ne, result_eq_zero_iff] at hzero
        rw [result_finite, result_finite, bne_iff_ne.2 hzero, Bool.and_true, Bool.and_true,
          toggleSign_written (isCanonical_written _).toIsNumeral]

/-- The last number that is rounded to two places and the first one that is left alone. -/
theorem order_across_the_limit :
    (Literal.value "90071992547409.9".toList).isFinite = true ∧
      (Literal.value "90071992547409.92".toList).isFinite = true ∧
      ((Literal.value "90071992547409.9".toList).lt
          (Literal.value "90071992547409.92".toList) = true ∨
        (Literal.value "90071992547409.9".toList).equals
          (Literal.value "90071992547409.92".toList) = true) ∧
      (∃ a b, (∀ v, Denotes (result 2 (Literal.value "90071992547409.9".toList)) v ↔ v = a) ∧
        (∀ v, Denotes (result 2 (Literal.value "90071992547409.92".toList)) v ↔ v = b) ∧ a ≤ b) ∧
      (result 2 (Literal.value "90071992547409.9".toList).neg = "0" ↔
        result 2 (Literal.value "90071992547409.9".toList) = "0") ∧
      (result 2 (Literal.value "90071992547409.9".toList) ≠ "0" →
        result 2 (Literal.value "90071992547409.9".toList).neg =
          toggleSign (result 2 (Literal.value "90071992547409.9".toList))) := by
  have hx : (Literal.value "90071992547409.9".toList).isFinite = true := by decide +kernel
  have hy : (Literal.value "90071992547409.92".toList).isFinite = true := by decide +kernel
  have hlt : (Literal.value "90071992547409.9".toList).lt
      (Literal.value "90071992547409.92".toList) = true := by decide +kernel
  obtain ⟨horder, hsign⟩ := result_keeps_order_and_sign 2
  exact ⟨hx, hy, Or.inl hlt, horder _ _ hx hy (Or.inl hlt), hsign _ hx⟩

end Display

end Reckoner
