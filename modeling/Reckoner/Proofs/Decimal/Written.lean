import Reckoner.Decimal.Notation
import Reckoner.Proofs.Decimal.Value

/-!
# Written numbers

An unsigned number as it is written: digits before the point, digits behind it, and an exponent. It
stands for a decimal, and every notation of the library writes one of these. What a reader makes of
a text is then a matter of these three parts alone.

## Main results

* `write_shortest`, `value_ofDecimal`: the shortest notation of a decimal is a written number of its
  value.
* `isNumeral_ofDecimal`, `isCanonical_ofDecimal`: it is well-formed, and has no zero too many.
-/

namespace Reckoner

open Decimal Layout

/-- A number without a sign, in the parts in which it is written. -/
structure Written where
  whole : List Char
  fraction : List Char
  exponent? : Option Int

namespace Written

/-! ## Text and value -/

/-- The point, with the digits behind it. -/
def pointChars (fraction : List Char) : List Char :=
  if fraction.isEmpty then [] else '.' :: fraction

/-- The exponent, if there is one. -/
def powerChars : Option Int → List Char
  | none => []
  | some e => exponentChars e

/-- The characters of the number. -/
def chars (w : Written) : List Char :=
  w.whole ++ (pointChars w.fraction ++ powerChars w.exponent?)

/-- The decimal that the characters spell out. -/
def decimal (w : Written) : Decimal :=
  ⟨digitsValue (w.whole ++ w.fraction), w.exponent?.getD 0 - w.fraction.length⟩

/-- The number that the characters stand for. -/
def value (w : Written) : ℚ := w.decimal.value

/-- A well-formed number: there are digits before the point, and they begin with a zero only if that
is all of them. -/
structure IsNumeral (w : Written) : Prop where
  whole_ne_nil : w.whole ≠ []
  isDigit_whole : ∀ c ∈ w.whole, c.isDigit = true
  isDigit_fraction : ∀ c ∈ w.fraction, c.isDigit = true
  leading : w.whole.head? = some '0' → w.whole = ['0']

/-- A number written without a digit too many: the fraction does not end in a zero, and with an
exponent, which is there for large and small numbers only, a single digit other than zero stands
before the point. -/
structure IsCanonical (w : Written) : Prop extends IsNumeral w where
  trailing : w.fraction.getLast? ≠ some '0'
  scientific : ∀ e, w.exponent? = some e →
    w.whole.length = 1 ∧ w.whole ≠ ['0'] ∧ (e < -4 ∨ 16 ≤ e)

theorem IsNumeral.exists_head {w : Written} (h : w.IsNumeral) :
    ∃ c rest, w.whole = c :: rest ∧ c.isDigit = true := by
  obtain ⟨c, rest, heq⟩ := List.exists_cons_of_ne_nil h.whole_ne_nil
  exact ⟨c, rest, heq, h.isDigit_whole c (heq ▸ List.mem_cons_self)⟩

/-! ## Zeros -/

theorem digitsValue_zeros (n : Nat) : digitsValue (zeros n) = 0 := by
  induction n with
  | zero => rfl
  | succ n ih =>
      have hzero : digitsValue ['0'] = 0 := by decide
      rw [zeros, List.replicate_succ', digitsValue_append, ← zeros, ih, hzero, Nat.zero_mul]

theorem digitsValue_zeros_append (n : Nat) (digits : List Char) :
    digitsValue (zeros n ++ digits) = digitsValue digits := by
  rw [digitsValue_append, digitsValue_zeros, Nat.zero_mul, Nat.zero_add]

theorem digitsValue_append_zeros (digits : List Char) (n : Nat) :
    digitsValue (digits ++ zeros n) = digitsValue digits * tenPow n := by
  rw [digitsValue_append, digitsValue_zeros, zeros, List.length_replicate, Nat.add_zero]

theorem isDigit_of_mem_zeros {n : Nat} : ∀ c ∈ zeros n, c.isDigit = true := by
  intro c hc
  rw [List.eq_of_mem_replicate hc]
  rfl

/-! ## Whole numbers -/

/-- A natural in digits. -/
def ofNat (n : Nat) : Written := ⟨digitsOf n, [], none⟩

theorem chars_ofNat (n : Nat) : (ofNat n).chars = digitsOf n := by
  simp [chars, ofNat, pointChars, powerChars]

theorem value_ofNat (n : Nat) : (ofNat n).value = n := by
  simp [value, decimal, ofNat, Decimal.value, digitsValue_digitsOf]

theorem leading_digitsOf (n : Nat) (h : (digitsOf n).head? = some '0') : digitsOf n = ['0'] := by
  by_cases hn : n = 0
  · rw [hn]
    decide +kernel
  · exact absurd h (head?_digitsOf hn)

theorem isCanonical_ofNat (n : Nat) : (ofNat n).IsCanonical where
  whole_ne_nil := digitsOf_ne_nil n
  isDigit_whole := isDigit_of_mem_digitsOf n
  isDigit_fraction := by simp [ofNat]
  leading := leading_digitsOf n
  trailing := by simp [ofNat]
  scientific e h := by cases h

/-! ## The shortest notation -/

/-- The parts in which the shortest notation writes a decimal. -/
def ofDecimal (d : Decimal) : Written :=
  let digits := digitsOf d.digits
  let lead := d.leadingExponent
  if -4 ≤ lead ∧ lead < 16 then
    if 0 ≤ d.exponent then ⟨digits ++ zeros d.exponent.toNat, ['0'], none⟩
    else if 0 ≤ lead then ⟨digits.take (lead + 1).toNat, digits.drop (lead + 1).toNat, none⟩
    else ⟨['0'], zeros (-lead - 1).toNat ++ digits, none⟩
  else ⟨digits.take 1, digits.drop 1, some lead⟩

section Shortest

variable {d : Decimal}

theorem leadingExponent_eq (d : Decimal) :
    d.leadingExponent = d.exponent + (digitsOf d.digits).length - 1 := by
  rw [leadingExponent, length_digitsOf]

/-- A fraction that begins inside the digits is not empty. -/
theorem drop_ne_nil (hexponent : d.exponent < 0) (hlead : 0 ≤ d.leadingExponent) :
    (digitsOf d.digits).drop (d.leadingExponent + 1).toNat ≠ [] := by
  have hlength := leadingExponent_eq d
  rw [Ne, List.drop_eq_nil_iff]
  omega

theorem write_shortest (d : Decimal) : Layout.shortest.write d = (ofDecimal d).chars := by
  simp only [write, ofDecimal, Layout.shortest]
  by_cases hpositional : -4 ≤ d.leadingExponent ∧ d.leadingExponent < 16
  · rw [if_pos hpositional, if_pos hpositional]
    by_cases hwhole : 0 ≤ d.exponent
    · rw [if_pos hwhole, if_pos hwhole]
      simp [chars, pointChars, powerChars]
    · rw [if_neg hwhole, if_neg hwhole]
      by_cases hlead : 0 ≤ d.leadingExponent
      · have hne := drop_ne_nil (by omega) hlead
        rw [if_pos hlead, if_pos hlead]
        simp [chars, pointChars, powerChars, -List.drop_eq_nil_iff, hne]
      · rw [if_neg hlead, if_neg hlead]
        simp [chars, pointChars, powerChars, digitsOf_ne_nil]
  · rw [if_neg hpositional, if_neg hpositional]
    simp [chars, pointChars, powerChars]

/-- The shortest notation shows the digits and the exponent of the decimal as they are, except that
it writes a whole number out and with a zero behind the point. -/
theorem decimal_ofDecimal (h : d.exponent < 0 ∨ 16 ≤ d.leadingExponent) :
    (ofDecimal d).decimal = d := by
  obtain ⟨digits, exponent⟩ := d
  have hlead := leadingExponent_eq ⟨digits, exponent⟩
  have hpos := List.length_pos_iff.2 (digitsOf_ne_nil digits)
  simp only at h hlead
  simp only [ofDecimal, decimal]
  split
  · next hpositional =>
    have hnegative : ¬ 0 ≤ exponent := by omega
    rw [if_neg hnegative]
    split
    · rw [List.take_append_drop, digitsValue_digitsOf, List.length_drop, Option.getD_none]
      congr 1
      omega
    · have hzero : digitsValue ['0'] = 0 := by decide
      rw [digitsValue_append, hzero, Nat.zero_mul, Nat.zero_add, digitsValue_zeros_append,
        digitsValue_digitsOf, List.length_append, zeros, List.length_replicate, Option.getD_none]
      congr 1
      push_cast
      omega
  · rw [List.take_append_drop, digitsValue_digitsOf, List.length_drop, Option.getD_some]
    congr 1
    omega

theorem value_ofDecimal (d : Decimal) : (ofDecimal d).value = d.value := by
  by_cases h : d.exponent < 0 ∨ 16 ≤ d.leadingExponent
  · rw [value, decimal_ofDecimal h]
  · -- A whole number written out.
    have hlead := leadingExponent_eq d
    have hpos := List.length_pos_iff.2 (digitsOf_ne_nil d.digits)
    have hvalue : (ofDecimal d).decimal = ⟨d.digits * tenPow (d.exponent.toNat + 1), -1⟩ := by
      have hrow : digitsOf d.digits ++ zeros d.exponent.toNat ++ ['0'] =
          digitsOf d.digits ++ zeros (d.exponent.toNat + 1) := by
        rw [List.append_assoc, zeros, zeros, List.replicate_succ']
      simp only [ofDecimal, decimal]
      rw [if_pos (by omega), if_pos (by omega), hrow, digitsValue_append_zeros,
        digitsValue_digitsOf]
      rfl
    obtain ⟨e, he⟩ := Int.eq_ofNat_of_zero_le (by omega : 0 ≤ d.exponent)
    rw [value, hvalue, Decimal.value, Decimal.value, he, tenPow_eq_pow]
    simp only [Int.toNat_natCast]
    push_cast
    rw [zpow_natCast, zpow_neg_one, pow_succ]
    field_simp

/-- An exponent is that of the leading digit, if it is too small or too large to do without. -/
theorem exponent?_ofDecimal_eq (d : Decimal) :
    (ofDecimal d).exponent? =
      if -4 ≤ d.leadingExponent ∧ d.leadingExponent < 16 then none else some d.leadingExponent := by
  simp only [ofDecimal]
  split
  · split
    · rfl
    · split <;> rfl
  · rfl

theorem exponent?_ofDecimal {e : Int} (h : (ofDecimal d).exponent? = some e) :
    e = d.leadingExponent ∧ (e < -4 ∨ 16 ≤ e) := by
  rw [exponent?_ofDecimal_eq] at h
  split at h
  · cases h
  · obtain rfl := Option.some.inj h
    exact ⟨rfl, by omega⟩

theorem digitsOf_zero : digitsOf 0 = ['0'] := by decide +kernel

/-- Digits begin with a zero only for zero itself. -/
theorem eq_zero_of_head?_take {n k : Nat} (hk : 0 < k)
    (h : ((digitsOf n).take k).head? = some '0') : n = 0 := by
  rw [List.head?_take, if_neg (by omega)] at h
  by_contra hne
  exact head?_digitsOf hne h

theorem isNumeral_ofDecimal (h : d.digits ≠ 0 ∨ d.exponent = 0) : (ofDecimal d).IsNumeral := by
  have hdigits := isDigit_of_mem_digitsOf d.digits
  have hpos := List.length_pos_iff.2 (digitsOf_ne_nil d.digits)
  have hlead := leadingExponent_eq d
  simp only [ofDecimal]
  split
  · next hpositional =>
    split
    · next hwhole =>
      refine ⟨by simp [digitsOf_ne_nil], ?_, by simp +decide, ?_⟩
      · intro c hc
        rcases List.mem_append.1 hc with hc | hc
        · exact hdigits c hc
        · exact isDigit_of_mem_zeros c hc
      · intro hleading
        have hdigits : d.digits = 0 := by
          refine eq_zero_of_head?_take hpos ?_
          rwa [List.head?_append, Option.or_of_isSome (by simp [digitsOf_ne_nil]),
            ← List.take_length (l := digitsOf d.digits)] at hleading
        rw [hdigits, digitsOf_zero, show d.exponent = 0 from h.resolve_left (absurd hdigits)]
        rfl
    · next hwhole =>
      split
      · next hinside =>
        refine ⟨?_, fun c hc => hdigits c (List.mem_of_mem_take hc),
          fun c hc => hdigits c (List.mem_of_mem_drop hc), ?_⟩
        · rw [Ne, List.take_eq_nil_iff]
          simp only [digitsOf_ne_nil, or_false]
          omega
        · intro hleading
          have := eq_zero_of_head?_take (by omega) hleading
          omega
      · refine ⟨by simp, by simp +decide, ?_, fun _ => rfl⟩
        intro c hc
        rcases List.mem_append.1 hc with hc | hc
        · exact isDigit_of_mem_zeros c hc
        · exact hdigits c hc
  · next hpositional =>
    refine ⟨?_, fun c hc => hdigits c (List.mem_of_mem_take hc),
      fun c hc => hdigits c (List.mem_of_mem_drop hc), ?_⟩
    · rw [Ne, List.take_eq_nil_iff]
      simp [digitsOf_ne_nil]
    · intro hleading
      rw [eq_zero_of_head?_take Nat.one_pos hleading, digitsOf_zero]
      rfl

/-- A decimal that has no zero at its end is written without a digit too many, unless it is a whole
number that is written out. -/
theorem isCanonical_ofDecimal (hdigits : d.digits % 10 ≠ 0)
    (h : d.exponent < 0 ∨ 16 ≤ d.leadingExponent) : (ofDecimal d).IsCanonical where
  toIsNumeral := isNumeral_ofDecimal (Or.inl (by omega))
  trailing := by
    have hlast := getLast?_digitsOf hdigits
    have hdrop : ∀ n, ((digitsOf d.digits).drop n).getLast? ≠ some '0' := by
      intro n
      rw [List.getLast?_drop]
      split
      · simp
      · exact hlast
    simp only [ofDecimal]
    split
    · next hpositional =>
      rw [if_neg (show ¬ 0 ≤ d.exponent by omega)]
      split
      · exact hdrop _
      · simp only
        rw [List.getLast?_append, Option.or_of_isSome (by simp [digitsOf_ne_nil])]
        exact hlast
    · exact hdrop 1
  scientific e he := by
    obtain ⟨rfl, hrange⟩ := exponent?_ofDecimal he
    have hhead := head?_digitsOf (show d.digits ≠ 0 by omega)
    obtain ⟨c, rest, hcons⟩ := List.exists_cons_of_ne_nil (digitsOf_ne_nil d.digits)
    rw [hcons] at hhead
    simp only [ofDecimal]
    rw [if_neg (by omega), hcons]
    refine ⟨rfl, ?_, hrange⟩
    intro heq
    exact hhead (congrArg List.head? heq)

end Shortest

end Written

end Reckoner
