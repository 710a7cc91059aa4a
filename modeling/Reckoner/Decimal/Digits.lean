import Reckoner.Powers

/-!
# Decimal digits

The digits of a natural, the value of a row of digits, and the number of digits.

## Main results

* `digitsValue_digitsOf`: the digits of a natural have its value.
* `isDigit_of_mem_digitsOf`: they are digits.
* `head?_digitsOf`, `getLast?_digitsOf`: which of them are no zeros.
* `digitsValue_append`: the value of two rows side by side.
* `length_digitsOf`: `decimalLength` counts them.
* `tenPow_le_of_decimalLength`, `lt_tenPow_decimalLength`: a natural of `k` digits is at least
  `10^(k-1)` and less than `10^k`.
-/

namespace Reckoner.Decimal

/-- The digit `d < 10`. -/
def digitChar (d : Nat) : Char := Char.ofNat ('0'.toNat + d)

/-- The value of a digit. -/
def digitValue (c : Char) : Nat := c.toNat - '0'.toNat

/-- The digits of a natural, most significant first. -/
def digitsOf (n : Nat) : List Char :=
  if n < 10 then [digitChar n] else digitsOf (n / 10) ++ [digitChar (n % 10)]

/-- The value of a row of digits, most significant first. -/
def digitsValue (digits : List Char) : Nat :=
  digits.foldl (fun value c => 10 * value + digitValue c) 0

/-- The number of digits of a natural; zero has one. -/
def decimalLength (n : Nat) : Nat :=
  if n < 10 then 1 else decimalLength (n / 10) + 1

/-- A natural in digits. -/
def natText (n : Nat) : String := String.ofList (digitsOf n)

/-- An integer in digits, after a minus sign if it is negative. -/
def intChars (n : Int) : List Char := if n < 0 then '-' :: digitsOf n.natAbs else digitsOf n.natAbs

/-- An integer in digits, after a minus sign if it is negative. -/
def intText (n : Int) : String := String.ofList (intChars n)

/-! ## Laws -/

theorem digitValue_digitChar : ∀ d < 10, digitValue (digitChar d) = d := by decide

theorem isDigit_digitChar : ∀ d < 10, (digitChar d).isDigit = true := by decide

/-- The digits of a natural have its value. -/
theorem digitsValue_digitsOf (n : Nat) : digitsValue (digitsOf n) = n := by
  fun_induction digitsOf n with
  | case1 n h => simp [digitsValue, digitValue_digitChar n h]
  | case2 n h ih =>
      have hlast := digitValue_digitChar (n % 10) (by omega)
      simp only [digitsValue] at ih
      simp only [digitsValue, List.foldl_append, ih, List.foldl_cons, List.foldl_nil, hlast]
      omega

theorem isDigit_of_mem_digitsOf (n : Nat) : ∀ c ∈ digitsOf n, c.isDigit = true := by
  fun_induction digitsOf n with
  | case1 n h =>
      intro c hc
      rw [List.mem_singleton.1 hc]
      exact isDigit_digitChar n h
  | case2 n h ih =>
      intro c hc
      rcases List.mem_append.1 hc with hc | hc
      · exact ih c hc
      · rw [List.mem_singleton.1 hc]
        exact isDigit_digitChar (n % 10) (by omega)

theorem digitsOf_ne_nil (n : Nat) : digitsOf n ≠ [] := by
  unfold digitsOf
  split <;> simp

/-- The digits of a natural other than zero do not begin with a zero. -/
theorem head?_digitsOf {n : Nat} (h : n ≠ 0) : (digitsOf n).head? ≠ some '0' := by
  have hdigit : ∀ d < 10, d ≠ 0 → digitChar d ≠ '0' := by decide
  fun_induction digitsOf n with
  | case1 n hn =>
      intro heq
      exact hdigit n hn h (Option.some.inj heq)
  | case2 n hn ih =>
      rw [List.head?_append, Option.or_of_isSome (by simp [digitsOf_ne_nil])]
      exact ih (by omega)

/-- The last digit of a natural that ten does not divide is no zero. -/
theorem getLast?_digitsOf {n : Nat} (h : n % 10 ≠ 0) : (digitsOf n).getLast? ≠ some '0' := by
  have hdigit : ∀ d < 10, d ≠ 0 → digitChar d ≠ '0' := by decide
  fun_cases digitsOf n with
  | case1 hn =>
      intro heq
      exact hdigit n hn (by omega) (Option.some.inj heq)
  | case2 hn =>
      rw [List.getLast?_concat]
      intro heq
      exact hdigit (n % 10) (by omega) h (Option.some.inj heq)

/-- Each digit further counts what stands before it ten times. -/
theorem digitsValue_append (front back : List Char) :
    digitsValue (front ++ back) = digitsValue front * tenPow back.length + digitsValue back := by
  have hfold : ∀ start, back.foldl (fun value c => 10 * value + digitValue c) start =
      start * tenPow back.length + digitsValue back := by
    induction back with
    | nil => intro start; simp [digitsValue]
    | cons c back ih =>
        intro start
        rw [digitsValue, List.foldl_cons, List.foldl_cons, ih, ih, List.length_cons, tenPow_succ,
          Nat.add_mul, Nat.add_mul, Nat.mul_zero, Nat.zero_mul, Nat.zero_add, ← Nat.mul_assoc,
          Nat.mul_comm start 10, Nat.add_assoc]
  rw [digitsValue, List.foldl_append]
  exact hfold _

theorem length_digitsOf (n : Nat) : (digitsOf n).length = decimalLength n := by
  fun_induction digitsOf n with
  | case1 n h => rw [decimalLength, if_pos h]; rfl
  | case2 n h ih => rw [decimalLength, if_neg h, List.length_append, ih]; rfl

theorem decimalLength_pos (n : Nat) : 0 < decimalLength n := by
  unfold decimalLength
  split <;> omega

theorem lt_tenPow_decimalLength (n : Nat) : n < tenPow (decimalLength n) := by
  fun_induction decimalLength n with
  | case1 n h => exact h
  | case2 n h ih => rw [tenPow_succ]; omega

theorem tenPow_le_of_decimalLength {n : Nat} (h : 0 < n) : tenPow (decimalLength n - 1) ≤ n := by
  fun_induction decimalLength n with
  | case1 n _ => exact h
  | case2 n hn ih =>
      have hpos := decimalLength_pos (n / 10)
      have hstep : decimalLength (n / 10) + 1 - 1 = decimalLength (n / 10) - 1 + 1 := by omega
      rw [hstep, tenPow_succ]
      have := ih (by omega)
      omega

end Reckoner.Decimal
