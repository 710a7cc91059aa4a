/-!
# Rounding a quotient to a whole number

Every number this library prints or computes is an exact quotient of two naturals that is rounded
once. This module holds that one rounding.

## Main results

* `roundDiv_near`: the rounded quotient is within half a unit of the exact one.
* `roundDiv_eq_of_near`: no other whole number is nearer than half a unit.
* `roundDiv_toEven_even`: of two equally near whole numbers it is the even one.
* `roundDiv_upward`: with ties going upward it is a quotient without a fraction.
* `roundDiv_mul_self`: a whole quotient is its own rounding.
-/

namespace Reckoner

/-- Where a quotient that lies halfway between two whole numbers goes. -/
inductive Tie where
  /-- To the even neighbour. -/
  | toEven
  /-- To the greater neighbour. -/
  | upward
deriving DecidableEq, Repr

/-- `num / den` rounded to the nearest whole number. -/
def roundDiv (tie : Tie) (num den : Nat) : Nat :=
  let floor := num / den
  let rest := num % den
  if 2 * rest < den then floor
  else if den < 2 * rest then floor + 1
  else match tie with
    | .toEven => floor + floor % 2
    | .upward => floor + 1

theorem le_roundDiv (tie : Tie) (num den : Nat) : num / den ≤ roundDiv tie num den := by
  unfold roundDiv
  cases tie <;> simp only <;> split <;> try split
  all_goals omega

theorem roundDiv_le (tie : Tie) (num den : Nat) : roundDiv tie num den ≤ num / den + 1 := by
  unfold roundDiv
  cases tie <;> simp only <;> split <;> try split
  all_goals omega

/-- The rounded quotient is within half a unit of the exact one. -/
theorem roundDiv_near (tie : Tie) (num : Nat) {den : Nat} (h : 0 < den) :
    2 * (roundDiv tie num den * den) ≤ 2 * num + den ∧
      2 * num ≤ 2 * (roundDiv tie num den * den) + den := by
  have hsplit : den * (num / den) + num % den = num := Nat.div_add_mod num den
  have hlt : num % den < den := Nat.mod_lt num h
  have hfloor : num / den * den = den * (num / den) := Nat.mul_comm _ _
  have hup : (num / den + 1) * den = den * (num / den) + den := by
    rw [Nat.add_mul, hfloor, Nat.one_mul]
  unfold roundDiv
  simp only
  split
  · rw [hfloor]; omega
  · split
    · rw [hup]; omega
    · cases tie with
      | upward => simp only; rw [hup]; omega
      | toEven =>
          simp only
          rcases Nat.mod_two_eq_zero_or_one (num / den) with hp | hp
          · rw [hp, Nat.add_zero, hfloor]; omega
          · rw [hp, hup]; omega

/-- A whole number that is nearer than half a unit is the rounded quotient. -/
theorem roundDiv_eq_of_near (tie : Tie) {num den n : Nat} (hbelow : 2 * (n * den) < 2 * num + den)
    (habove : 2 * num < 2 * (n * den) + den) : roundDiv tie num den = n := by
  have hden : 0 < den := by omega
  obtain ⟨hlow, hhigh⟩ := roundDiv_near tie num hden
  rcases Nat.lt_trichotomy (roundDiv tie num den) n with hlt | heq | hgt
  · have hstep := Nat.mul_le_mul_right den hlt
    rw [Nat.succ_mul] at hstep
    omega
  · exact heq
  · have hstep := Nat.mul_le_mul_right den hgt
    rw [Nat.succ_mul] at hstep
    omega

/-- Of two equally near whole numbers the rounded quotient is the even one. -/
theorem roundDiv_toEven_even {num den : Nat} (h : 0 < den)
    (htie : 2 * num + den = 2 * (roundDiv .toEven num den * den) ∨
      2 * num = 2 * (roundDiv .toEven num den * den) + den) :
    roundDiv .toEven num den % 2 = 0 := by
  have hsplit : den * (num / den) + num % den = num := Nat.div_add_mod num den
  have hlt : num % den < den := Nat.mod_lt num h
  have hfloor : num / den * den = den * (num / den) := Nat.mul_comm _ _
  have hup : (num / den + 1) * den = den * (num / den) + den := by
    rw [Nat.add_mul, hfloor, Nat.one_mul]
  unfold roundDiv at htie ⊢
  simp only at htie ⊢
  split at htie
  · rw [hfloor] at htie
    omega
  · split at htie
    · rw [hup] at htie
      omega
    · split <;> try split
      all_goals omega

/-- With ties going upward, half a unit is added and the fraction is dropped. -/
theorem roundDiv_upward (num : Nat) {den : Nat} (h : 0 < den) :
    roundDiv .upward num den = (2 * num + den) / (2 * den) := by
  have hsplit : den * (num / den) + num % den = num := Nat.div_add_mod num den
  have hlt : num % den < den := Nat.mod_lt num h
  have hfloor : num / den * (2 * den) = 2 * (den * (num / den)) := by
    rw [Nat.mul_left_comm, Nat.mul_comm (num / den)]
  have hup : (num / den + 1) * (2 * den) = 2 * (den * (num / den)) + 2 * den := by
    rw [Nat.add_mul, hfloor, Nat.one_mul]
  have hupper : (num / den + 1 + 1) * (2 * den) = 2 * (den * (num / den)) + 4 * den := by
    rw [Nat.add_mul, hup, Nat.one_mul]
    omega
  unfold roundDiv
  simp only
  split
  · exact (Nat.div_eq_of_lt_le (by omega) (by omega)).symm
  · split <;> exact (Nat.div_eq_of_lt_le (by omega) (by omega)).symm

theorem roundDiv_upward_mono {a b den : Nat} (hden : 0 < den) (h : a ≤ b) :
    roundDiv .upward a den ≤ roundDiv .upward b den := by
  rw [roundDiv_upward a hden, roundDiv_upward b hden]
  exact Nat.div_le_div_right (by omega)

/-- A whole quotient is its own rounding. -/
theorem roundDiv_mul_self (tie : Tie) (n : Nat) {den : Nat} (h : 0 < den) :
    roundDiv tie (n * den) den = n := by
  unfold roundDiv
  simp only [Nat.mul_div_cancel n h, Nat.mul_mod_left]
  rw [if_pos (by omega)]

end Reckoner
