import Reckoner.Proofs.Display.Repetition
import Reckoner.Proofs.Grammar.Blanks
import Reckoner.Proofs.Session.Splice

/-!
# What is typed is what is shown

A literal of so many places, with fewer than `2^51` units of the last of them, is shown as it was
typed, apart from zeros that say nothing. Reading it finds the nearest magnitude, which is not quite
the number. Scaling and rounding find the number of units again, because the error of the scaled
magnitude is less than a quarter of a unit, and scaling back finds the magnitude again. The shortest
decimal that reads as this magnitude has no more places than were asked for, and no other decimal of
so many places reads as the same magnitude, so it is the number that was typed.

## Main results

* `IsMinimalForm.unique`: a number has one text in minimal form at most.
* `value_written`: the numeral of the magnitude that is read stands for the number itself.
* `isMinimal_written`: it is written in minimal form.
* `typed_is_shown`: the answer to a literal is its number in minimal form.
-/

namespace Reckoner

open Decimal

/-- The text is the minimal form of the number, behind a minus sign if the number is negative. -/
def IsMinimalForm (text : String) (d : ℚ) : Prop :=
  ∃ w : Written, w.IsMinimal ∧ w.value = |d| ∧
    text = String.ofList (Binary64.signChars (d < 0) ++ w.chars)

/-- A number has one text in minimal form at most. -/
theorem IsMinimalForm.unique {s t : String} {d : ℚ} (hs : IsMinimalForm s d)
    (ht : IsMinimalForm t d) : s = t := by
  obtain ⟨v, hv, hvalue, rfl⟩ := hs
  obtain ⟨w, hw, hother, rfl⟩ := ht
  rw [hv.eq_of_value hw (hvalue.trans hother.symm)]

namespace Display

open Binary64

/-! ## The numeral that is shown -/

section Numeral

variable {places n rank : Nat}

/-- A numeral of fewer than `2^51` units reads as a magnitude of fewer than `2^52`. -/
theorem scaled_lt_of_lt (hplaces : places ≤ maxPlaces) (hn : n < twoPow 51)
    (h : ReadsAs (n / tenPow places) rank) :
    magnitude rank * tenPow places < twoPow 53 * (1 / 2 : ℚ) := by
  have hnear := scaled_near hplaces h
  have habove := le_abs_self (magnitude rank * tenPow places - n)
  have hlimit : (n : ℚ) < 2251799813685248 := by exact_mod_cast hn
  have hconst : (twoPow 53 : ℚ) = 9007199254740992 := by
    exact_mod_cast (rfl : twoPow 53 = 9007199254740992)
  rw [hconst] at hnear ⊢
  linarith

/-- The numeral of the magnitude that is read stands for the number itself. -/
theorem value_written (hplaces : places ≤ maxPlaces) (hn : n < twoPow 51)
    (h : ReadsAs (n / tenPow places) rank) : (written rank).value = n / tenPow places := by
  have hrounded : IsRounded places rank := by
    have hwhole := isRounded_of_whole hplaces n
    rwa [nearestRank_eq_of_readsAs (tenPow_pos places) h] at hwhole
  obtain ⟨other, hother⟩ := onGrid_written hrounded
  rw [zpow_neg_places, mul_one_div] at hother
  have hreads := readsAs_written rank
  rw [hother] at hreads ⊢
  rw [eq_of_readsAs hplaces (scaled_lt_of_lt hplaces hn h) h hreads]

/-- The shortest notation has an exponent for numbers below `10^-4`. -/
theorem isSome_exponent?_ofDecimal_iff {d : Decimal} (hdigits : d.digits ≠ 0)
    (hsmall : d.value < 10 ^ (16 : ℤ)) :
    (Written.ofDecimal d).exponent?.isSome = true ↔ d.value < 10 ^ (-4 : ℤ) := by
  have hten : (1 : ℚ) < 10 := by norm_num
  have hbelow : d.leadingExponent < 16 :=
    (zpow_lt_zpow_iff_right₀ hten).1 ((le_value hdigits).trans_lt hsmall)
  rw [Written.exponent?_ofDecimal_eq]
  by_cases hlead : -4 ≤ d.leadingExponent
  · have hle : (10 : ℚ) ^ (-4 : ℤ) ≤ d.value :=
      (zpow_le_zpow_right₀ hten.le hlead).trans (le_value hdigits)
    rw [if_pos ⟨hlead, hbelow⟩]
    exact iff_of_false (by simp) hle.not_gt
  · have hlt : d.value < 10 ^ (-4 : ℤ) :=
      (value_lt d).trans_le (zpow_le_zpow_right₀ hten.le (by omega))
    rw [if_neg fun hboth => hlead hboth.1]
    exact iff_of_true rfl hlt

/-- A whole number other than zero is not so small that it would need an exponent. -/
theorem not_tiny_natCast (m : ℕ) : ¬((m : ℚ) ≠ 0 ∧ (m : ℚ) < 10 ^ (-4 : ℤ)) := by
  rintro ⟨hne, hlt⟩
  have hone : (1 : ℚ) ≤ m := by
    exact_mod_cast Nat.one_le_iff_ne_zero.2 (by exact_mod_cast hne)
  have hbound : (10 : ℚ) ^ (-4 : ℤ) ≤ 1 := by norm_num
  linarith

/-- A numeral that is shown has an exponent if its number is below `10^-4` and not zero. -/
theorem isSome_exponent?_written_iff (hsmall : (written rank).value < 10 ^ (16 : ℤ)) :
    (written rank).exponent?.isSome = true ↔
      (written rank).value ≠ 0 ∧ (written rank).value < 10 ^ (-4 : ℤ) := by
  by_cases hwhole : units rank % unitsInOne = 0 ∧ units rank < fullBelow * unitsInOne
  · rw [written, if_pos hwhole, Written.value_ofNat]
    exact iff_of_false (by simp [Written.ofNat]) (not_tiny_natCast _)
  · have hrank : rank ≠ 0 := by
      rintro rfl
      exact hwhole ⟨rfl, by decide +kernel⟩
    have hdigits : (shortest rank).digits ≠ 0 := by
      intro hzero
      exact digits_shortest_mod hrank (by rw [hzero])
    rw [and_iff_right (value_written_ne_zero_iff.2 hrank)]
    rw [written, if_neg hwhole, Written.value_ofDecimal] at hsmall ⊢
    exact isSome_exponent?_ofDecimal_iff hdigits hsmall

/-- A numeral that is shown is in minimal form, unless it is very large. -/
theorem isMinimal_written (hsmall : (written rank).value < 10 ^ (16 : ℤ)) :
    (written rank).IsMinimal := by
  have hcanonical := isCanonical_written rank
  have hexponent := isSome_exponent?_written_iff hsmall
  refine ⟨hcanonical, ?_, hexponent⟩
  intro m hm
  cases hpower : (written rank).exponent? with
  | none =>
      have hgrid : OnGrid (-((0 : ℕ) : ℤ)) (written rank).value := ⟨m, by simpa using hm⟩
      exact List.length_eq_zero_iff.1 (Nat.le_zero.1 (hcanonical.length_fraction_le hpower hgrid))
  | some e =>
      have htiny := hexponent.1 (Option.isSome_of_eq_some hpower)
      rw [hm] at htiny
      exact absurd htiny (not_tiny_natCast m)

end Numeral

/-- The result of the magnitude that is read is the minimal form of the number. -/
theorem isMinimalForm_result {places : Nat} (hplaces : places ≤ maxPlaces) {n : Nat}
    (hn : n < twoPow 51) {rank : Nat} (hlimit : rank < rankLimit)
    (h : ReadsAs (n / tenPow places) rank) (negative : Bool) :
    IsMinimalForm (result places (.finite negative ⟨rank, hlimit⟩))
      (signed negative (n / tenPow places)) := by
  have hvalue := value_written hplaces hn h
  have hnonneg : (0 : ℚ) ≤ n / tenPow places := hvalue ▸ (written rank).value_nonneg
  have hsmall : (written rank).value < 10 ^ (16 : ℤ) := by
    have hone : (1 : ℚ) ≤ tenPow places := by exact_mod_cast tenPow_pos places
    have hlimit : (n : ℚ) < 10 ^ (16 : ℤ) := by
      exact_mod_cast hn.trans (by decide : twoPow 51 < 10 ^ 16)
    rw [hvalue]
    exact (div_le_self (Nat.cast_nonneg n) hone).trans_lt hlimit
  have hzero : (n / tenPow places : ℚ) ≠ 0 ↔ rank ≠ 0 := hvalue ▸ value_written_ne_zero_iff
  have hsign : (negative && rank != 0) =
      decide (signed negative (n / tenPow places : ℚ) < 0) := by
    rw [Bool.eq_iff_iff, decide_eq_true_iff, signed_lt_zero_iff hnonneg, hzero, Bool.and_eq_true,
      bne_iff_ne]
  have hplacesOf : clampPlaces (places : ℤ) = places := Nat.min_eq_left hplaces
  have hself : roundedRank places rank = rank :=
    (roundedRank_eq_self_iff hplaces h).2 (Or.inl hn)
  refine ⟨written rank, isMinimal_written hsmall, ?_, ?_⟩
  · rw [abs_signed, abs_of_nonneg hnonneg, hvalue]
  · rw [result_finite, hplacesOf, hself, hsign]

end Display

/-! ## Literals that are typed -/

/-- A literal with or without a sign has no blanks to lose. -/
theorem dropBlanks_literal (sign : Option Sign) {digits : List Char}
    (hdigits : Literal.InLanguage digits) :
    Text.dropBlanks (Sign.spelling sign ++ digits) = Sign.spelling sign ++ digits := by
  have hsign : ∀ c ∈ Sign.spelling sign, Text.isBlank c = false := by
    intro c hc
    cases sign with
    | none => cases hc
    | some sign =>
        obtain rfl : c = sign.operator.char := List.mem_singleton.1 hc
        cases sign <;> decide
  refine Text.dropBlanks_of_no_blank (List.forall_mem_append.2 ⟨hsign, ?_⟩)
  intro c hc
  exact Literal.isBlank_of_isLiteralChar (Literal.isLiteralChar_of_inLanguage hdigits c hc)

/-- The value of a literal is its number. -/
theorem Question.outcome_value_literal (sign : Option Sign) (numeral : Numeral)
    (writesProducts : Bool) :
    (Question.value (String.ofList (Sign.spelling sign ++ numeral.digits)) writesProducts).outcome =
      .ok (SignedNumeral.value ⟨sign, numeral⟩) := by
  rw [Question.outcome_value, String.toList_ofList, dropBlanks_literal sign numeral.inLanguage,
    (Token.readsNumber_spelling sign numeral).read_eq]
  rfl

/-- A literal that reads as a magnitude is read as this magnitude under its sign. -/
theorem exists_numeral_of_readsAs {digits : List Char} (hdigits : Literal.InLanguage digits)
    {rank : Nat} (hlimit : rank < Binary64.rankLimit)
    (h : ReadsAs (Literal.decimal digits).value rank) (sign : Option Sign) :
    ∃ numeral : Numeral, numeral.digits = digits ∧
      SignedNumeral.value ⟨sign, numeral⟩ = .finite (sign = some .minus) ⟨rank, hlimit⟩ := by
  have hvalue : Literal.value digits = .finite false ⟨rank, hlimit⟩ :=
    toBinary64_of_readsAs h hlimit false
  refine ⟨⟨digits, hdigits, by rw [hvalue]; rfl⟩, rfl, ?_⟩
  rcases sign with _ | (_ | _)
  · exact hvalue
  · exact hvalue
  · rw [SignedNumeral.value, Numeral.value, hvalue]
    rfl

/-- A literal of up to fifteen places, with or without a sign, whose number is less than `2^51`
units of the last place, is answered with that number in minimal form. -/
theorem typed_is_shown {store : Settings.Store} {settings : Settings}
    (hload : store.load = .ok settings) {places products : Json} {p : ℕ}
    (hplaces : Question.choose places (settings.get Settings.placesName) = .integer p)
    (hp : p ≤ 15) (sign : Option Sign) {digits : List Char} (hdigits : Literal.InLanguage digits)
    {d : ℚ} (hd : d = signed (sign = some .minus) (Literal.decimal digits).value)
    (hmultiple : ∃ k : ℤ, d = k * 10 ^ (-(p : ℤ))) (hsmall : |d| * 10 ^ p < 2 ^ 51) :
    ∃ text, (Question.answerFrom store
        ⟨.text (String.ofList (Sign.spelling sign ++ digits)), places, products⟩).outcome =
          .ok (.ok text) ∧
      ∀ other, IsMinimalForm other d ↔ other = text := by
  obtain ⟨k, hk⟩ := hmultiple
  have hvalue : (Literal.decimal digits).value = k.natAbs / tenPow p := by
    have hnonneg : 0 ≤ (Literal.decimal digits).value := by
      rw [Decimal.value]
      positivity
    have habs := congrArg abs hd
    rw [abs_signed, abs_of_nonneg hnonneg, hk, Display.zpow_neg_places, mul_one_div, abs_div,
      abs_of_pos (cast_tenPow_pos p)] at habs
    rw [← habs, Nat.cast_natAbs, Int.cast_abs]
  have hn : k.natAbs < twoPow 51 := by
    have hpower : (10 : ℚ) ^ p = tenPow p := by
      rw [tenPow_eq_pow]
      push_cast
      rfl
    rw [hd, abs_signed, hvalue, abs_of_nonneg (by positivity), hpower,
      div_mul_cancel₀ _ (cast_tenPow_pos p).ne'] at hsmall
    exact_mod_cast hsmall
  have hlimit := Display.lt_rankLimit_of_whole (hn.le.trans (by decide : twoPow 51 ≤ twoPow 53)) p
  have hreads := readsAs_nearestRank k.natAbs (tenPow_pos p)
  obtain ⟨numeral, rfl, hnumeral⟩ :=
    exists_numeral_of_readsAs hdigits hlimit (hvalue ▸ hreads) sign
  have hform := Display.isMinimalForm_result hp hn hlimit hreads (sign = some .minus)
  rw [← hvalue, ← hd] at hform
  refine ⟨_, ?_, fun other => ⟨fun hother => hother.unique hform, fun heq => heq ▸ hform⟩⟩
  rw [Question.outcome_answerFrom hload, Question.outcome_answer_text, hplaces,
    Question.outcome_value_literal, hnumeral]
  rfl

/-- A small number with zeros too many at both ends. -/
theorem five_hundred_thousandths_are_shown :
    (Question.answerFrom .empty ⟨.text "-.000050", .integer 5, .null⟩).outcome =
        .ok (.ok "-5e-05") ∧
      ∀ other, IsMinimalForm other (-1 / 20000) ↔ other = "-5e-05" := by
  have hload : Settings.Store.empty.load = .ok Settings.defaults := rfl
  have hplaces : Question.choose (.integer (5 : ℕ)) (Settings.defaults.get Settings.placesName) =
      .integer (5 : ℕ) := rfl
  have hdigits : Literal.InLanguage ".000050".toList :=
    Literal.inLanguage_iff.2 (.inr ⟨[], "000050".toList, rfl, by simp, by simp,
      List.all_eq_true.1 rfl⟩)
  have hdecimal : Literal.decimal ".000050".toList = ⟨50, -6⟩ := by decide +kernel
  have hd : (-1 / 20000 : ℚ) =
      signed (some Sign.minus = some .minus) (Literal.decimal ".000050".toList).value := by
    rw [hdecimal, Decimal.value]
    norm_num [signed]
  have hmultiple : ∃ k : ℤ, (-1 / 20000 : ℚ) = k * 10 ^ (-((5 : ℕ) : ℤ)) :=
    ⟨-5, by norm_num⟩
  have hsmall : |(-1 / 20000 : ℚ)| * 10 ^ 5 < 2 ^ 51 := by norm_num [abs_of_neg]
  obtain ⟨text, hanswer, hform⟩ : ∃ text,
      (Question.answerFrom .empty ⟨.text "-.000050", .integer 5, .null⟩).outcome =
          .ok (.ok text) ∧ ∀ other, IsMinimalForm other (-1 / 20000) ↔ other = text :=
    typed_is_shown hload hplaces (by decide) (some .minus) hdigits hd hmultiple hsmall
  have hshown : (Question.answerFrom .empty ⟨.text "-.000050", .integer 5, .null⟩).outcome =
      .ok (.ok "-5e-05") := by decide +kernel
  have htext : text = "-5e-05" := by
    have hsame := hshown.symm.trans hanswer
    exact (Except.ok.inj (Except.ok.inj hsame)).symm
  exact ⟨hshown, htext ▸ hform⟩

end Reckoner
