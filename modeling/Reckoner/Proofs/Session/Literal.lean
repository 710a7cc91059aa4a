import Reckoner.Proofs.Display.Answer
import Reckoner.Proofs.Session.Splice
import Reckoner.Session

/-!
# The literal of a displayed result

A session that continues from a result puts a literal in front of the line. A result in plain
notation is its own literal. One in exponent form is rounded to six places, with the zeros at the
end of the fraction left out, and that literal reads back as the displayed number only if the number
has no further places.

## Main results

* `literalOf_written`, `readsNumber_continued`: every displayed number has a literal, which is read
  as one finite number.
* `eq_continued_iff`: when that number is the displayed one.
* `literal_reads_back_iff`: the same of the result of a finite number.
-/

namespace Reckoner

open Decimal Layout Binary64

namespace Written

/-! ## Reading a literal -/

theorem toBinary64_neg (d : Decimal) : (d.toBinary64 false).neg = d.toBinary64 true := by
  rw [toBinary64, toBinary64]
  cases d.exponent <;> exact nearest_neg ..

/-- A written number without an exponent is read as one number, its sign included. -/
theorem readsNumber_chars {w : Written} (h : w.IsNumeral) (hexponent : w.exponent? = none)
    (negative : Bool) (hfinite : (w.decimal.toBinary64 negative).isFinite = true) :
    Token.ReadsNumber (signChars negative ++ w.chars) (w.decimal.toBinary64 negative) := by
  have hvalue : Literal.value w.chars = w.decimal.toBinary64 false := by
    rw [Literal.value, decimal_chars h hexponent]
  have hlanguage : Literal.InLanguage w.chars := by
    have := h.inLanguage
    rwa [chars, hexponent, powerChars, List.append_nil]
  have hunsigned : (Literal.value w.chars).isFinite = true := by
    rw [hvalue]
    cases negative with
    | false => exact hfinite
    | true => rwa [← isFinite_neg, toBinary64_neg]
  cases negative with
  | false =>
      rw [← hvalue]
      exact Token.readsNumber_numeral ⟨w.chars, hlanguage, hunsigned⟩
  | true =>
      rw [← toBinary64_neg, ← hvalue]
      exact Token.readsNumber_spelling (some .minus) ⟨w.chars, hlanguage, hunsigned⟩

end Written

/-! ## Six places -/

namespace Session

theorem dropTrailing_append (c : Char) (front back : List Char) :
    dropTrailing c (front ++ back) =
      if dropTrailing c back = [] then dropTrailing c front
      else front ++ dropTrailing c back := by
  simp only [dropTrailing, List.reverse_append, List.dropWhile_append, List.isEmpty_iff,
    List.reverse_eq_nil_iff]
  split <;> simp

/-- What is dropped are copies of the character. -/
theorem exists_dropTrailing_append (c : Char) (cs : List Char) :
    ∃ n, dropTrailing c cs ++ List.replicate n c = cs := by
  have hcopies : ∀ d ∈ cs.reverse.takeWhile (· == c), d = c := by
    intro d hd
    have := List.all_eq_true.1 (List.all_takeWhile (p := (· == c)) (l := cs.reverse)) d hd
    simpa using this
  have hsplit := congrArg List.reverse
    (List.takeWhile_append_dropWhile (p := (· == c)) (l := cs.reverse))
  rw [List.reverse_append, List.reverse_reverse] at hsplit
  have hreplicate := List.eq_replicate_iff.2 ⟨rfl, hcopies⟩
  refine ⟨(cs.reverse.takeWhile (· == c)).length, ?_⟩
  rw [dropTrailing, ← List.reverse_replicate, ← hreplicate]
  exact hsplit

theorem mem_of_mem_dropTrailing {c d : Char} {cs : List Char} (h : d ∈ dropTrailing c cs) :
    d ∈ cs := by
  obtain ⟨n, hn⟩ := exists_dropTrailing_append c cs
  rw [← hn]
  exact List.mem_append_left _ h

theorem dropTrailing_of_not_mem {c : Char} {cs : List Char} (h : c ∉ cs) :
    dropTrailing c cs = cs := by
  obtain ⟨n, hn⟩ := exists_dropTrailing_append c cs
  cases n with
  | zero => simpa using hn
  | succ n => exact absurd (hn ▸ by simp) h

/-- The six digits behind the point of a number of millionths. -/
def sixDigits (millionths : Nat) : List Char :=
  zeros (6 - (digitsOf (millionths % tenPow 6)).length) ++ digitsOf (millionths % tenPow 6)

/-- A number of millionths, written without the zeros at the end of its fraction. -/
def ofMillionths (millionths : Nat) : Written :=
  ⟨digitsOf (millionths / tenPow 6), dropTrailing '0' (sixDigits millionths), none⟩

section Millionths

variable (millionths : Nat)

theorem isDigit_sixDigits : ∀ c ∈ sixDigits millionths, c.isDigit = true := by
  intro c hc
  rcases List.mem_append.1 hc with hc | hc
  · exact Written.isDigit_of_mem_zeros c hc
  · exact isDigit_of_mem_digitsOf _ c hc

theorem length_sixDigits : (sixDigits millionths).length = 6 := by
  have hlength : (digitsOf (millionths % tenPow 6)).length ≤ 6 := by
    rw [length_digitsOf]
    by_contra hlong
    have hlt := Nat.mod_lt millionths (tenPow_pos 6)
    by_cases hzero : millionths % tenPow 6 = 0
    · rw [hzero] at hlong
      exact hlong (by decide +kernel)
    · have hle := tenPow_le_of_decimalLength (Nat.pos_of_ne_zero hzero)
      have := tenPow_le (show 6 ≤ decimalLength (millionths % tenPow 6) - 1 by omega)
      omega
  rw [sixDigits, List.length_append, zeros, List.length_replicate]
  omega

theorem digitsValue_sixDigits : digitsValue (sixDigits millionths) = millionths % tenPow 6 := by
  rw [sixDigits, Written.digitsValue_zeros_append, digitsValue_digitsOf]

theorem isNumeral_ofMillionths : (ofMillionths millionths).IsNumeral where
  whole_ne_nil := digitsOf_ne_nil _
  isDigit_whole := isDigit_of_mem_digitsOf _
  isDigit_fraction c hc := isDigit_sixDigits millionths c (mem_of_mem_dropTrailing hc)
  leading := Written.leading_digitsOf _

/-- Zeros at the end of a fraction do not change the value. -/
theorem value_append_zeros (whole fraction : List Char) (n : Nat) :
    Written.value ⟨whole, fraction ++ zeros n, none⟩ = Written.value ⟨whole, fraction, none⟩ := by
  simp only [Written.value, Written.decimal, Decimal.value, Option.getD_none, Int.zero_sub]
  rw [← List.append_assoc, Written.digitsValue_append_zeros, List.length_append, zeros,
    List.length_replicate, tenPow_eq_pow]
  push_cast
  rw [neg_add, zpow_add₀ (by norm_num), mul_assoc]
  congr 1
  rw [mul_comm ((10 : ℚ) ^ (-(fraction.length : ℤ))), ← mul_assoc, ← zpow_natCast,
    ← zpow_add₀ (by norm_num), add_neg_cancel, zpow_zero, one_mul]

theorem value_ofMillionths : (ofMillionths millionths).value = millionths * 10 ^ (-6 : ℤ) := by
  obtain ⟨n, hn⟩ := exists_dropTrailing_append '0' (sixDigits millionths)
  have hzeros : dropTrailing '0' (sixDigits millionths) ++ zeros n = sixDigits millionths := hn
  rw [ofMillionths, ← value_append_zeros _ _ n, hzeros]
  simp only [Written.value, Written.decimal, Decimal.value, Option.getD_none, Int.zero_sub]
  rw [digitsValue_append, digitsValue_digitsOf, digitsValue_sixDigits, length_sixDigits,
    Nat.div_add_mod']
  rfl

/-- The point goes with the zeros that stand behind it. -/
theorem dropTrailing_fixed (negative : Bool) :
    dropTrailing '.' (dropTrailing '0' (signChars negative ++
        (digitsOf (millionths / tenPow 6) ++ '.' :: sixDigits millionths))) =
      signChars negative ++ (ofMillionths millionths).chars := by
  have hnoPoint : ∀ {digits : List Char}, (∀ c ∈ digits, c.isDigit = true) → '.' ∉ digits :=
    fun h hmem => absurd (h '.' hmem) (by decide)
  have hfraction := hnoPoint (isNumeral_ofMillionths millionths).isDigit_fraction
  have hfront : '.' ∉ signChars negative ++ digitsOf (millionths / tenPow 6) := by
    rw [List.mem_append, not_or]
    exact ⟨by cases negative <;> simp [signChars], hnoPoint (isDigit_of_mem_digitsOf _)⟩
  have hzeros : dropTrailing '0' ('.' :: sixDigits millionths) =
      '.' :: (ofMillionths millionths).fraction := by
    have happend := dropTrailing_append '0' ['.'] (sixDigits millionths)
    rw [List.singleton_append] at happend
    rw [happend]
    split
    · next hnil =>
      rw [ofMillionths, hnil]
      rfl
    · rfl
  rw [← List.append_assoc, dropTrailing_append, hzeros, if_neg (List.cons_ne_nil _ _),
    dropTrailing_append]
  rw [Written.chars, ofMillionths] at *
  simp only [Written.powerChars, List.append_nil]
  generalize dropTrailing '0' (sixDigits millionths) = fraction at *
  cases fraction with
  | nil =>
      rw [if_pos (by decide), dropTrailing_of_not_mem hfront]
      simp [Written.pointChars]
  | cons digit fraction =>
      have happend := dropTrailing_append '.' ['.'] (digit :: fraction)
      rw [dropTrailing_of_not_mem hfraction, if_neg (List.cons_ne_nil _ _)] at happend
      rw [← List.singleton_append, happend, if_neg (by simp)]
      simp [Written.pointChars]

end Millionths

/-! ## The literal of a result -/

open Display

/-- The numeral that a session puts in front of a line for the magnitude of this rank. -/
def continued (rank : Nat) : Written :=
  if (written rank).exponent?.isNone then written rank
  else ofMillionths (roundDiv .toEven (units rank * tenPow 6) unitsInOne)

theorem isNumeral_continued (rank : Nat) : (continued rank).IsNumeral := by
  rw [continued]
  split
  · exact (isCanonical_written rank).toIsNumeral
  · exact isNumeral_ofMillionths _

theorem exponent?_continued (rank : Nat) : (continued rank).exponent? = none := by
  rw [continued]
  split
  · next hnone => exact Option.isNone_iff_eq_none.1 hnone
  · rfl

/-- A displayed number has a literal: its numeral in plain notation, or rounded to six places. -/
theorem literalOf_written (negative : Bool) (rank : Fin rankLimit) :
    literalOf (String.ofList (signChars negative ++ (written rank.val).chars)) =
      .ok (String.ofList (signChars negative ++ (continued rank.val).chars)) := by
  have hnumeral := (isCanonical_written rank.val).toIsNumeral
  have hunsigned : (signChars negative ++ (written rank.val).chars).dropWhile (· == '-') =
      (written rank.val).chars := by
    obtain ⟨c, rest, hwhole, hdigit⟩ := hnumeral.exists_head
    have hminus : (c == '-') = false := by
      rw [beq_eq_false_iff_ne]
      rintro rfl
      exact absurd hdigit (by decide)
    have hchars : (written rank.val).chars.dropWhile (· == '-') = (written rank.val).chars := by
      rw [Written.chars, hwhole, List.cons_append, List.dropWhile_cons_of_neg (by simp [hminus])]
    cases negative with
    | false => exact hchars
    | true =>
        rw [signChars, if_pos rfl, List.singleton_append, List.dropWhile_cons_of_pos (by decide)]
        exact hchars
  rw [literalOf, String.toList_ofList, hunsigned, Written.isLiteral_chars hnumeral, continued]
  split
  · rfl
  · rw [readBinary64?_written]
    simp only [fixedText, Binary64.write, String.toList_ofList]
    rw [← dropTrailing_fixed]
    rfl

/-! ## The number of the literal -/

section Value

variable {rank : Nat}

theorem mul_zpow_neg_six (v : ℚ) : v * 10 ^ (-6 : ℤ) = v / tenPow 6 :=
  (congrArg (v * ·) (zpow_neg_places 6)).trans (mul_one_div _ _)

/-- The value of a whole number is not changed by rounding it to six places. -/
theorem value_continued_of_dvd (h : unitsInOne ∣ units rank) :
    ReadsAs (continued rank).value rank := by
  rw [continued]
  split
  · exact readsAs_written rank
  · obtain ⟨n, hn⟩ := h
    have hunits : units rank = n * unitsInOne := hn.trans (Nat.mul_comm _ _)
    have hmillionths : roundDiv .toEven (units rank * tenPow 6) unitsInOne = n * tenPow 6 := by
      rw [hunits, Nat.mul_right_comm, roundDiv_mul_self .toEven _ unitsInOne_pos]
    have hvalue : (ofMillionths (n * tenPow 6)).value = magnitude rank := by
      have hpos := (cast_tenPow_pos 6).ne'
      rw [value_ofMillionths, mul_zpow_neg_six, magnitude_eq_of_units hunits, Nat.cast_mul,
        mul_div_cancel_right₀ _ hpos]
    rw [hmillionths, hvalue]
    exact readsAs_magnitude rank

/-- The literal of a finite number is one of a finite number. -/
theorem exists_continued_eq (rank : Fin rankLimit) (negative : Bool) :
    ∃ read : Fin rankLimit, ReadsAs (continued rank.val).value read.val ∧
      (continued rank.val).decimal.toBinary64 negative = .finite negative read := by
  suffices h : ∃ read < rankLimit, ReadsAs (continued rank.val).value read by
    obtain ⟨read, hlimit, hreads⟩ := h
    exact ⟨⟨read, hlimit⟩, hreads, toBinary64_of_readsAs hreads hlimit negative⟩
  by_cases hwhole : unitsInOne ∣ units rank.val
  · exact ⟨rank, rank.isLt, value_continued_of_dvd hwhole⟩
  · by_cases hplain : (written rank.val).exponent?.isNone
    · refine ⟨rank, rank.isLt, ?_⟩
      rw [continued, if_pos hplain]
      exact readsAs_written _
    · have hsmall : units rank.val < twoPow 53 * unitsInOne :=
        Nat.lt_of_not_le fun hlarge => hwhole (unitsInOne_dvd_of_large hlarge)
      rw [continued, if_neg hplain, value_ofMillionths, mul_zpow_neg_six]
      have hbound : roundDiv .toEven (units rank.val * tenPow 6) unitsInOne ≤ tenPow 300 := by
        have hdiv : units rank.val * tenPow 6 / unitsInOne < twoPow 53 * tenPow 6 := by
          rw [Nat.div_lt_iff_lt_mul unitsInOne_pos, Nat.mul_right_comm]
          exact Nat.mul_lt_mul_of_pos_right hsmall (tenPow_pos 6)
        have hceil := roundDiv_le .toEven (units rank.val * tenPow 6) unitsInOne
        exact (hceil.trans hdiv).trans (by decide +kernel)
      generalize roundDiv .toEven (units rank.val * tenPow 6) unitsInOne = millionths at *
      have hreads := readsAs_nearestRank millionths (tenPow_pos 6)
      have hone : (1 : ℚ) ≤ tenPow 6 := by exact_mod_cast tenPow_pos 6
      refine ⟨_, lt_rankLimit_of_readsAs hreads ?_, hreads⟩
      exact (div_le_self (Nat.cast_nonneg _) hone).trans (by exact_mod_cast hbound)

/-- A number in exponent form that is not whole is less than one. -/
theorem written_lt_one (hwhole : ¬ unitsInOne ∣ units rank)
    (hexponent : (written rank).exponent? ≠ none) : (written rank).value < 1 := by
  have hwritten : written rank = .ofDecimal (shortest rank) := by
    rw [written]
    exact if_neg fun hand => hwhole (Nat.dvd_of_mod_eq_zero hand.1)
  rw [hwritten] at hexponent ⊢
  obtain ⟨e, he⟩ := Option.ne_none_iff_exists'.1 hexponent
  obtain ⟨rfl, hrange⟩ := Written.exponent?_ofDecimal he
  rw [Written.value_ofDecimal]
  rcases hrange with hsmall | hlarge
  · exact (value_lt _).trans_le (zpow_le_one_of_nonpos₀ (by norm_num) (by omega))
  · -- From `10^16` on all magnitudes are whole.
    exfalso
    have hne : rank ≠ 0 := by
      rintro rfl
      exact hwhole (Nat.dvd_zero _)
    have hdigits := digits_shortest_mod hne
    obtain ⟨first, hfirst⟩ := exists_units_eq (show twoPow 53 ≤ 2 * fractions by decide) 1074
    have hreads := readsAs_magnitude first
    rw [magnitude_eq_of_units hfirst] at hreads
    have hbound : (twoPow 53 : ℚ) ≤ (shortest rank).value := by
      have hpower : (twoPow 53 : ℚ) ≤ 10 ^ (16 : ℤ) := by
        exact_mod_cast (by decide : twoPow 53 ≤ tenPow 16)
      exact hpower.trans ((zpow_le_zpow_right₀ (by norm_num) hlarge).trans
        (le_value (by omega)))
    have hle := cast_units_le (hreads.mono (readsAs_shortest rank) hbound)
    refine hwhole (unitsInOne_dvd_of_large ?_)
    rw [show twoPow 53 * unitsInOne = units first from hfirst.symm]
    exact_mod_cast hle

/-- A number less than one that is displayed as a number of millionths is rounded to these. -/
theorem roundDiv_of_onGrid (hnormal : fractions ≤ rank) (hsmall : (written rank).value < 1)
    {n : Nat} (hn : (written rank).value = n * 10 ^ (-6 : ℤ)) :
    roundDiv .toEven (units rank * tenPow 6) unitsInOne = n := by
  have hreads := readsAs_written rank
  have hpos : 0 < rank := Nat.lt_of_lt_of_le (by decide) hnormal
  -- The displayed number is no farther from the magnitude than the next magnitude is.
  have habove := hreads.sub_le_spacing hpos (isNearest_units rank)
  have hbelow := (isNearest_units rank).sub_le_spacing hpos hreads
  obtain ⟨one, hone⟩ := exists_units_eq (show 1 ≤ 2 * fractions by decide) 1074
  have hunits : units one = 1 * unitsInOne := hone
  have hmagnitude := readsAs_magnitude one
  rw [magnitude_eq_of_units hunits, Nat.cast_one] at hmagnitude
  have hle : (units rank : ℚ) ≤ unitsInOne := by
    have hle := cast_units_le (hreads.mono hmagnitude hsmall.le)
    rwa [hunits, Nat.one_mul] at hle
  have hspacing : (fractions * spacing rank : ℚ) ≤ units rank := by
    exact_mod_cast spacing_le hnormal
  have hfractions : (4 * tenPow 6 : ℚ) ≤ fractions := by
    exact_mod_cast (by decide : 4 * tenPow 6 ≤ fractions)
  have hspacingPos : (0 : ℚ) < spacing rank := by exact_mod_cast spacing_pos rank
  have hstep : 4 * tenPow 6 * (spacing rank : ℚ) ≤ unitsInOne :=
    (mul_le_mul_of_nonneg_right hfractions hspacingPos.le).trans (hspacing.trans hle)
  have hscale : (n : ℚ) * unitsInOne = (written rank).value * unitsInOne * tenPow 6 := by
    have hsix := (cast_tenPow_pos 6).ne'
    rw [hn, mul_zpow_neg_six, mul_right_comm, div_mul_cancel₀ _ hsix]
  have hsix := cast_tenPow_pos 6
  have habove' := mul_le_mul_of_nonneg_right habove hsix.le
  have hbelow' := mul_le_mul_of_nonneg_right hbelow hsix.le
  rw [sub_mul, ← hscale] at habove' hbelow'
  have hhalf : 0 < (tenPow 6 : ℚ) * spacing rank := mul_pos hsix hspacingPos
  have hlow : (2 * (n * unitsInOne) : ℚ) < 2 * (units rank * tenPow 6) + unitsInOne := by linarith
  have hhigh : (2 * (units rank * tenPow 6) : ℚ) < 2 * (n * unitsInOne) + unitsInOne := by linarith
  exact roundDiv_eq_of_near .toEven (by exact_mod_cast hlow) (by exact_mod_cast hhigh)

end Value

/-! ## Reading it back -/

/-- The literal of the displayed number is read as one finite number. -/
theorem readsNumber_continued (negative : Bool) (rank : Fin rankLimit) :
    Token.ReadsNumber (signChars negative ++ (continued rank.val).chars)
      ((continued rank.val).decimal.toBinary64 negative) := by
  obtain ⟨read, -, hread⟩ := exists_continued_eq rank negative
  exact Written.readsNumber_chars (isNumeral_continued _) (exponent?_continued _) negative
    (by rw [hread]; rfl)

/-- Every displayed result of a finite number has a literal without a blank, which is read as one
finite number. -/
theorem exists_literal {x : Binary64} (hx : x.isFinite = true) (places : Int) :
    ∃ literal value, literalOf (result places x) = .ok (String.ofList literal) ∧
      Token.ReadsNumber literal value ∧ value.isFinite = true ∧
      ∀ c ∈ literal, Text.isBlank c = false := by
  obtain ⟨negative, rank, htext, -⟩ := exists_result_eq hx places
  obtain ⟨read, -, hread⟩ := exists_continued_eq rank (negative && rank.val != 0)
  rw [htext]
  refine ⟨_, _, literalOf_written _ rank, readsNumber_continued _ rank, by rw [hread]; rfl, ?_⟩
  intro c hc
  rcases List.mem_append.1 hc with hc | hc
  · cases hsign : negative && rank.val != 0 with
    | false =>
        rw [hsign] at hc
        cases hc
    | true =>
        rw [hsign] at hc
        obtain rfl := List.mem_singleton.1 hc
        decide
  · exact ((isNumeral_continued rank.val).isNumeralChar c hc).isBlank

/-- The number of the literal is the displayed one exactly if the numeral has no exponent or stands
for a number of millionths. -/
theorem eq_continued_iff {places : Nat} {rank : Fin rankLimit}
    (hrounded : IsRounded places rank.val) (negative : Bool) :
    (continued rank.val).decimal.toBinary64 negative = .finite negative rank ↔
      (written rank.val).exponent? = none ∨ OnGrid (-6) (written rank.val).value := by
  obtain ⟨read, hreads, hread⟩ := exists_continued_eq rank negative
  have hplain : (written rank.val).exponent? = none → read = rank := by
    intro hnone
    rw [continued, if_pos (Option.isNone_iff_eq_none.2 hnone)] at hreads
    exact Fin.ext (hreads.eq (readsAs_written rank.val))
  rw [hread]
  constructor
  · intro heq
    obtain rfl := (Binary64.finite.inj heq).2
    by_cases hnone : (written read.val).exponent? = none
    · exact Or.inl hnone
    · rcases hrounded with hzero | ⟨hnormal, -⟩
      · refine absurd ?_ hnone
        rw [hzero, written, if_pos ⟨rfl, by decide +kernel⟩]
        rfl
      · rw [continued, if_neg fun h => hnone (Option.isNone_iff_eq_none.1 h),
          value_ofMillionths] at hreads
        exact Or.inr (@onGrid_written _ 6 (Or.inr ⟨hnormal, _, hreads⟩))
  · intro hcases
    congr 1
    by_cases hnone : (written rank.val).exponent? = none
    · exact hplain hnone
    obtain ⟨n, hn⟩ := hcases.resolve_left hnone
    by_cases hwhole : unitsInOne ∣ units rank.val
    · exact Fin.ext (hreads.eq (value_continued_of_dvd hwhole))
    · rcases hrounded with hzero | ⟨hnormal, -⟩
      · exact absurd (by rw [hzero]; exact Nat.dvd_zero _) hwhole
      · have hmillionths := roundDiv_of_onGrid hnormal (written_lt_one hwhole hnone) hn
        rw [continued, if_neg fun h => hnone (Option.isNone_iff_eq_none.1 h), hmillionths,
          value_ofMillionths, ← hn] at hreads
        exact Fin.ext (hreads.eq (readsAs_written rank.val))

/-- Every displayed result of a finite number has a literal, which is read as one finite number. It
is the displayed number exactly if the result is in plain notation or stands for a whole number of
millionths. -/
theorem literal_reads_back_iff {x : Binary64} (hx : x.isFinite = true) (places : Int) :
    ∃ negative w literal displayed value,
      Displays (clampPlaces places) (result places x) negative w ∧
        literalOf (result places x) = .ok literal ∧
        readBinary64? (result places x) = some displayed ∧ displayed.isFinite = true ∧
        (∀ writesProducts, Token.read writesProducts literal.toList = .ok [.number value]) ∧
        value.isFinite = true ∧
        (value = displayed ↔ w.exponent? = none ∨ OnGrid (-6) w.value) := by
  obtain ⟨negative, rank, htext, hrounded⟩ := exists_result_eq hx places
  obtain ⟨read, -, hread⟩ := exists_continued_eq rank (negative && rank.val != 0)
  rw [htext]
  refine ⟨_, _, _, _, (continued rank.val).decimal.toBinary64 (negative && rank.val != 0),
    displays_written negative hrounded, literalOf_written _ rank, readBinary64?_written _ rank, rfl,
    ?_, by rw [hread]; rfl, eq_continued_iff hrounded _⟩
  intro writesProducts
  rw [String.toList_ofList]
  exact (readsNumber_continued _ rank).read_eq writesProducts

/-- Three tenths are displayed in plain notation. -/
theorem three_tenths_reads_back :
    (Literal.value ".3".toList).isFinite = true ∧
      ∃ negative w literal displayed value,
        Displays (clampPlaces 2) (result 2 (Literal.value ".3".toList)) negative w ∧
          literalOf (result 2 (Literal.value ".3".toList)) = .ok literal ∧
          readBinary64? (result 2 (Literal.value ".3".toList)) = some displayed ∧
          displayed.isFinite = true ∧
          (∀ writesProducts, Token.read writesProducts literal.toList = .ok [.number value]) ∧
          value.isFinite = true ∧
          (value = displayed ↔ w.exponent? = none ∨ OnGrid (-6) w.value) := by
  have hfinite : (Literal.value ".3".toList).isFinite = true := by decide +kernel
  exact ⟨hfinite, literal_reads_back_iff hfinite 2⟩

/-- Twelve hundred-millionths are displayed with an exponent, and their literal is zero: not every
result is read back as the displayed number. -/
theorem tiny_result_is_not_read_back :
    result 10 (Literal.value ".00000012".toList) = "1.2e-07" ∧
      literalOf "1.2e-07" = .ok "0" ∧
      readBinary64? "1.2e-07" = some (Literal.value ".00000012".toList) ∧
      Token.read false "0".toList = .ok [.number (.zero false)] ∧
      ¬ ∀ (x : Binary64) (places : Int), x.isFinite = true →
        ∃ literal displayed, literalOf (result places x) = .ok literal ∧
          readBinary64? (result places x) = some displayed ∧
          ∀ writesProducts, Token.read writesProducts literal.toList = .ok [.number displayed] := by
  have hresult : result 10 (Literal.value ".00000012".toList) = "1.2e-07" := by decide +kernel
  have hliteral : literalOf "1.2e-07" = .ok "0" := by decide +kernel
  have hdisplayed : readBinary64? "1.2e-07" = some (Literal.value ".00000012".toList) := by
    decide +kernel
  have hread : Token.read false "0".toList = .ok [.number (.zero false)] := by decide +kernel
  refine ⟨hresult, hliteral, hdisplayed, hread, fun hall => ?_⟩
  obtain ⟨literal, displayed, hliteral', hdisplayed', hread'⟩ :=
    hall (Literal.value ".00000012".toList) 10 (by decide +kernel)
  rw [hresult, hliteral] at hliteral'
  rw [hresult, hdisplayed] at hdisplayed'
  cases hliteral'
  have hsame := hread.symm.trans (hread' false)
  rw [← Option.some.inj hdisplayed'] at hsame
  have hzero : Binary64.zero false = Literal.value ".00000012".toList :=
    Token.number.inj (List.cons.inj (Except.ok.inj hsame)).1
  exact absurd hzero (by decide +kernel)

end Session

end Reckoner
