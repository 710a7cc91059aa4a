import Reckoner.Proofs.Decimal.Numeral

/-!
# The minimal form of a number

There are many ways to write a number: with zeros in front, with zeros at the end, with and without
an exponent. The minimal form has none of the zeros, and an exponent only for numbers close to zero.
It is determined by the number: the fraction is as long as the number needs it, and rows of digits
without a zero in front are told apart by their values.

## Main results

* `digitsOf_digitsValue`: a row of digits without a zero in front is that of its value.
* `le_exponent`, `length_fraction_le`: the fraction is as long as the number needs it.
* `IsMinimal.eq_of_value`: no two minimal forms have the same value.
-/

namespace Reckoner

namespace Decimal

/-! ## Rows of digits -/

theorem digitValue_lt {c : Char} (h : c.isDigit = true) : digitValue c < 10 := by
  obtain ⟨-, hhigh⟩ := Written.toNat_of_isDigit h
  rw [digitValue, show '0'.toNat = 48 from rfl]
  omega

theorem digitChar_digitValue {c : Char} (h : c.isDigit = true) : digitChar (digitValue c) = c := by
  obtain ⟨hlow, -⟩ := Written.toNat_of_isDigit h
  rw [digitChar, digitValue, show '0'.toNat = 48 from rfl, Nat.add_sub_cancel' hlow,
    Char.ofNat_toNat]

theorem digitsValue_singleton (c : Char) : digitsValue [c] = digitValue c := by simp [digitsValue]

theorem digitsValue_concat (row : List Char) (c : Char) :
    digitsValue (row ++ [c]) = digitsValue row * 10 + digitValue c := by
  rw [digitsValue_append, digitsValue_singleton, List.length_singleton, tenPow_succ, tenPow_zero]

theorem digitsValue_lt {row : List Char} (h : ∀ c ∈ row, c.isDigit = true) :
    digitsValue row < tenPow row.length := by
  induction row using List.reverseRecOn with
  | nil => exact Nat.one_pos
  | append_singleton row c ih =>
      have hrow := ih fun d hd => h d (List.mem_append_left _ hd)
      have hc := digitValue_lt (h c (by simp))
      rw [digitsValue_concat, List.length_append, List.length_singleton, tenPow_succ]
      omega

/-- A row of digits without a zero in front is the row of its value. -/
theorem digitsOf_digitsValue {row : List Char} (hne : row ≠ [])
    (hdigits : ∀ c ∈ row, c.isDigit = true) (hleading : row.head? = some '0' → row = ['0']) :
    digitsOf (digitsValue row) = row := by
  induction row using List.reverseRecOn with
  | nil => exact absurd rfl hne
  | append_singleton row c ih =>
      have hc : c.isDigit = true := hdigits c (by simp)
      have hlast := digitValue_lt hc
      rw [digitsValue_concat]
      by_cases hrow : row = []
      · rw [hrow, digitsOf, if_pos (by simpa [digitsValue] using hlast)]
        simp [digitsValue, digitChar_digitValue hc]
      · have hhead : row.head? ≠ some '0' := by
          intro hzero
          have hall : row ++ [c] = ['0'] := by
            apply hleading
            rw [List.head?_append, hzero]
            rfl
          have hlength := congrArg List.length hall
          have hpos := List.length_pos_iff.2 hrow
          simp only [List.length_append, List.length_singleton] at hlength
          omega
        have hself := ih hrow (fun d hd => hdigits d (List.mem_append_left _ hd))
          fun hzero => absurd hzero hhead
        have hvalue : digitsValue row ≠ 0 := by
          intro hzero
          rw [hzero, Written.digitsOf_zero] at hself
          rw [← hself] at hhead
          exact hhead rfl
        have hfront : (digitsValue row * 10 + digitValue c) / 10 = digitsValue row := by omega
        have hlast : (digitsValue row * 10 + digitValue c) % 10 = digitValue c := by omega
        rw [digitsOf, if_neg (by omega), hfront, hlast, hself, digitChar_digitValue hc]

/-- Rows of as many digits are told apart by their values. -/
theorem eq_of_digitsValue {front back : List Char} (hfront : ∀ c ∈ front, c.isDigit = true)
    (hback : ∀ c ∈ back, c.isDigit = true) (hlength : front.length = back.length)
    (hvalue : digitsValue front = digitsValue back) : front = back := by
  -- Behind a one the rows have no zeros in front.
  have hrow : ∀ row : List Char, (∀ c ∈ row, c.isDigit = true) →
      digitsOf (tenPow row.length + digitsValue row) = '1' :: row := by
    intro row hdigits
    have hone : digitsValue ('1' :: row) = tenPow row.length + digitsValue row := by
      have hsplit := digitsValue_append ['1'] row
      rwa [show digitsValue ['1'] = 1 by decide, Nat.one_mul] at hsplit
    rw [← hone]
    exact digitsOf_digitsValue (by simp) (List.forall_mem_cons.2 ⟨rfl, hdigits⟩) (by simp)
  have hsame := hrow front hfront
  rw [hlength, hvalue, hrow back hback] at hsame
  exact (List.cons.inj hsame).2.symm

/-- A decimal is told by its exponent and its value. -/
theorem eq_of_exponent {d e : Decimal} (hexponent : d.exponent = e.exponent)
    (hvalue : d.value = e.value) : d = e := by
  obtain ⟨digits, exponent⟩ := d
  obtain ⟨others, same⟩ := e
  obtain rfl : exponent = same := hexponent
  have hcancel := mul_right_cancel₀ (zpow_ne_zero exponent (by norm_num : (10 : ℚ) ≠ 0)) hvalue
  obtain rfl : digits = others := by exact_mod_cast hcancel
  rfl

end Decimal

namespace Written

open Decimal

variable {v w : Written}

/-! ## Canonical forms of a number -/

/-- A canonical number does not end in a zero behind a point or in front of an exponent. -/
theorem IsCanonical.digits_mod_ne_zero (h : w.IsCanonical)
    (hshort : w.fraction ≠ [] ∨ w.exponent?.isSome = true) : w.decimal.digits % 10 ≠ 0 := by
  obtain ⟨front, last, hrow, hlast⟩ : ∃ front last, w.whole ++ w.fraction = front ++ [last] ∧
      last ≠ '0' := by
    by_cases hnil : w.fraction = []
    · obtain ⟨e, he⟩ := Option.isSome_iff_exists.1 (hshort.resolve_left (not_not_intro hnil))
      obtain ⟨hlength, hzero, -⟩ := h.scientific e he
      obtain ⟨c, hc⟩ := List.length_eq_one_iff.1 hlength
      refine ⟨[], c, by rw [hnil, hc]; rfl, ?_⟩
      rintro rfl
      exact hzero hc
    · obtain ⟨front, last, hfraction⟩ := (List.eq_nil_or_concat w.fraction).resolve_left hnil
      rw [List.concat_eq_append] at hfraction
      refine ⟨w.whole ++ front, last, by rw [hfraction, List.append_assoc], ?_⟩
      rintro rfl
      exact h.trailing (by rw [hfraction, List.getLast?_concat])
  have hdigit : last.isDigit = true := by
    have hmem : last ∈ w.whole ++ w.fraction := by simp [hrow]
    exact (List.mem_append.1 hmem).elim (h.isDigit_whole last) (h.isDigit_fraction last)
  have hlt := digitValue_lt hdigit
  have hne : digitValue last ≠ 0 := by
    intro hzero
    have hself := digitChar_digitValue hdigit
    rw [hzero] at hself
    exact hlast hself.symm
  rw [decimal, hrow, digitsValue_concat]
  simp only
  omega

/-- The exponent of its decimal is then the greatest one that the number admits. -/
theorem IsCanonical.le_exponent (h : w.IsCanonical)
    (hshort : w.fraction ≠ [] ∨ w.exponent?.isSome = true) {e : ℤ} (hgrid : OnGrid e w.value) :
    e ≤ w.decimal.exponent := by
  have hmod := h.digits_mod_ne_zero hshort
  have hne : w.decimal.digits ≠ 0 := by
    intro hzero
    rw [hzero] at hmod
    exact hmod rfl
  have hstrip : stripZeros w.decimal = w.decimal := by
    rw [stripZeros, if_neg fun hand => hmod hand.2]
  have hle := le_exponent_stripZeros hne hgrid
  rwa [hstrip] at hle

/-- A written number without a zero at its end has as many digits behind the point as it needs. -/
theorem IsCanonical.length_fraction_le (h : w.IsCanonical) (hexponent : w.exponent? = none)
    {places : Nat} (hgrid : OnGrid (-(places : ℤ)) w.value) : w.fraction.length ≤ places := by
  by_cases hnil : w.fraction = []
  · rw [hnil]
    exact Nat.zero_le _
  · have hle := h.le_exponent (Or.inl hnil) hgrid
    rw [decimal, hexponent, Option.getD_none] at hle
    simp only at hle
    omega

/-! ## Minimal forms -/

/-- A number in its minimal form: a canonical one that has no fraction if it is whole, and that has
an exponent exactly if it is below `10^-4` and not zero. -/
structure IsMinimal (w : Written) : Prop extends IsCanonical w where
  fraction_of_whole : ∀ n : ℕ, w.value = n → w.fraction = []
  exponent : w.exponent?.isSome = true ↔ w.value ≠ 0 ∧ w.value < 10 ^ (-4 : ℤ)

/-- The digits before the point are told by the digits of all and the number of those behind it. -/
theorem IsNumeral.eq_of_digits (hv : v.IsNumeral) (hw : w.IsNumeral)
    (hlength : v.fraction.length = w.fraction.length)
    (hdigits : v.decimal.digits = w.decimal.digits) :
    v.whole = w.whole ∧ v.fraction = w.fraction := by
  have hsplit : digitsValue v.whole = digitsValue w.whole ∧
      digitsValue v.fraction = digitsValue w.fraction := by
    have hlt := digitsValue_lt hv.isDigit_fraction
    have hother := digitsValue_lt hw.isDigit_fraction
    rw [decimal, decimal] at hdigits
    simp only [digitsValue_append, hlength] at hdigits
    rw [hlength] at hlt
    have hmod := congrArg (· % tenPow w.fraction.length) hdigits
    simp only [Nat.mul_add_mod', Nat.mod_eq_of_lt hlt, Nat.mod_eq_of_lt hother] at hmod
    rw [hmod] at hdigits
    exact ⟨Nat.eq_of_mul_eq_mul_right (tenPow_pos _) (Nat.add_right_cancel hdigits), hmod⟩
  refine ⟨?_, eq_of_digitsValue hv.isDigit_fraction hw.isDigit_fraction hlength hsplit.2⟩
  rw [← digitsOf_digitsValue hv.whole_ne_nil hv.isDigit_whole hv.leading, hsplit.1,
    digitsOf_digitsValue hw.whole_ne_nil hw.isDigit_whole hw.leading]

/-- Canonical numbers without an exponent are told by their values. -/
theorem IsCanonical.eq_of_plain (hv : v.IsCanonical) (hw : w.IsCanonical)
    (hvalue : v.value = w.value) (hnone : v.exponent? = none) (hother : w.exponent? = none) :
    v = w := by
  have hgrid : ∀ {u : Written}, u.exponent? = none →
      u.decimal.exponent = -(u.fraction.length : ℤ) := by
    intro u hu
    rw [decimal, hu, Option.getD_none, Int.zero_sub]
  have hlength : v.fraction.length = w.fraction.length := by
    apply Nat.le_antisymm
    · exact hv.length_fraction_le hnone ⟨w.decimal.digits, by rw [hvalue, ← hgrid hother]; rfl⟩
    · exact hw.length_fraction_le hother ⟨v.decimal.digits, by rw [← hvalue, ← hgrid hnone]; rfl⟩
  have hdecimal : v.decimal = w.decimal :=
    eq_of_exponent (by rw [hgrid hnone, hgrid hother, hlength]) hvalue
  obtain ⟨hwhole, hfraction⟩ :=
    hv.toIsNumeral.eq_of_digits hw.toIsNumeral hlength (congrArg Decimal.digits hdecimal)
  cases v
  cases w
  simp only at hwhole hfraction hnone hother
  rw [hwhole, hfraction, hnone, hother]

/-- Canonical numbers with an exponent are told by their values. -/
theorem IsCanonical.eq_of_scientific (hv : v.IsCanonical) (hw : w.IsCanonical)
    (hvalue : v.value = w.value) {e f : ℤ} (he : v.exponent? = some e) (hf : w.exponent? = some f) :
    v = w := by
  have hsome : ∀ {u : Written} {g : ℤ}, u.exponent? = some g → u.exponent?.isSome = true :=
    fun hu => Option.isSome_of_eq_some hu
  have hdecimal : v.decimal = w.decimal := by
    refine eq_of_exponent (le_antisymm ?_ ?_) hvalue
    · exact hw.le_exponent (Or.inr (hsome hf)) ⟨v.decimal.digits, hvalue.symm⟩
    · exact hv.le_exponent (Or.inr (hsome he)) ⟨w.decimal.digits, hvalue⟩
  have hrow : ∀ {u : Written} {g : ℤ}, u.IsCanonical → u.exponent? = some g →
      digitsOf u.decimal.digits = u.whole ++ u.fraction := by
    intro u g hu hg
    obtain ⟨hlength, hzero, -⟩ := hu.scientific g hg
    obtain ⟨c, hc⟩ := List.length_eq_one_iff.1 hlength
    refine digitsOf_digitsValue (by simp [hu.whole_ne_nil]) ?_ ?_
    · intro d hd
      exact (List.mem_append.1 hd).elim (hu.isDigit_whole d) (hu.isDigit_fraction d)
    · intro hleading
      rw [hc] at hleading hzero
      obtain rfl := Option.some.inj hleading
      exact absurd rfl hzero
  have hsame := hrow hv he
  rw [hdecimal, hrow hw hf] at hsame
  obtain ⟨hwhole, hfraction⟩ := List.append_inj hsame
    ((hw.scientific f hf).1.trans (hv.scientific e he).1.symm)
  have hexponent : e = f := by
    have heq := congrArg Decimal.exponent hdecimal
    rw [decimal, decimal, he, hf, hfraction] at heq
    simpa using heq
  cases v
  cases w
  simp only at hwhole hfraction he hf
  rw [hwhole, hfraction, he, hf, hexponent]

/-- No two minimal forms have the same value. -/
theorem IsMinimal.eq_of_value (hv : v.IsMinimal) (hw : w.IsMinimal) (hvalue : v.value = w.value) :
    v = w := by
  have hsome : v.exponent?.isSome = true ↔ w.exponent?.isSome = true := by
    rw [hv.exponent, hw.exponent, hvalue]
  cases he : v.exponent? with
  | none =>
      cases hf : w.exponent? with
      | none => exact hv.toIsCanonical.eq_of_plain hw.toIsCanonical hvalue he hf
      | some f => simp [he, hf] at hsome
  | some e =>
      cases hf : w.exponent? with
      | none => simp [he, hf] at hsome
      | some f => exact hv.toIsCanonical.eq_of_scientific hw.toIsCanonical hvalue he hf

theorem value_nonneg (w : Written) : 0 ≤ w.value := by
  rw [value, Decimal.value]
  positivity

end Written

end Reckoner
