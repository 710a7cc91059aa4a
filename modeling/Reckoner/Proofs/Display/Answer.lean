import Reckoner.Proofs.Answer
import Reckoner.Proofs.Display.Canonical
import Reckoner.Proofs.Finite

/-!
# Answers are canonical numerals

Whatever text is answered with a value, the value is displayed as a canonical numeral: a whole
number, a plain decimal or the exponent form, without a digit too many and never as a zero with a
sign or as the name of a value that is not finite. It stands for a multiple of the last place in
use.

## Main results

* `displays_written`: the numeral of a rounded number.
* `answer_is_canonical`: the numeral of an answer.
-/

namespace Reckoner

open Decimal

/-- The text is the canonical numeral `w` after its sign, with so many decimal places in use. -/
structure Displays (places : Nat) (text : String) (negative : Bool) (w : Written) : Prop where
  text_eq : text = String.ofList (Binary64.signChars negative ++ w.chars)
  canonical : w.IsCanonical
  /-- Zero is written in one way only. -/
  zero : w.value = 0 → text = "0"
  /-- The text is not that of a signed zero or of a value that is not finite. -/
  finite : text ∉ ["-0", "nan", "inf", "-inf"]
  /-- The numeral stands for a multiple of the last place in use. -/
  multiple : OnGrid (-(places : ℤ)) w.value
  /-- In plain notation it shows no further places. -/
  few : w.exponent? = none → w.fraction.length ≤ places

/-- What reads back as a finite number that is no negative zero is not the text of one, nor the name
of a value that is not finite. -/
theorem not_mem_of_readBinary64? {text : String} {negative : Bool}
    {rank : Fin Binary64.rankLimit}
    (h : readBinary64? text = some (.finite (negative && rank.val != 0) rank)) :
    text ∉ ["-0", "nan", "inf", "-inf"] := by
  have hread : readBinary64? "-0" = some (.zero true) ∧ readBinary64? "nan" = some .nan ∧
      readBinary64? "inf" = some (.infinite false) ∧
      readBinary64? "-inf" = some (.infinite true) := by decide +kernel
  intro hmem
  simp only [List.mem_cons, List.not_mem_nil, or_false] at hmem
  rcases hmem with rfl | rfl | rfl | rfl
  · rw [hread.1] at h
    obtain ⟨hsign, rfl⟩ := Binary64.finite.inj (Option.some.inj h)
    simp at hsign
  · rw [hread.2.1] at h
    cases h
  · rw [hread.2.2.1] at h
    cases h
  · rw [hread.2.2.2] at h
    cases h

/-- A rounded number is displayed as a canonical numeral. -/
theorem displays_written {places : Nat} (negative : Bool) {rank : Fin Binary64.rankLimit}
    (hrounded : Display.IsRounded places rank.val) :
    Displays places
      (String.ofList (Binary64.signChars (negative && rank.val != 0)
        ++ (Display.written rank.val).chars))
      (negative && rank.val != 0) (Display.written rank.val) := by
  have hcanonical := Display.isCanonical_written rank.val
  have hmultiple := Display.onGrid_written hrounded
  refine ⟨rfl, hcanonical, ?_, ?_, hmultiple, fun hexponent =>
    hcanonical.length_fraction_le hexponent hmultiple⟩
  · intro hzero
    rw [Display.value_written_eq_zero hzero, Display.chars_written_zero]
    simp [Binary64.signChars]
  · exact not_mem_of_readBinary64? (Display.readBinary64?_written _ rank)

/-- Whenever a text is answered with a value, under an integer for the number of places, that value
is displayed as a canonical numeral which stands for a multiple of the last place in use. -/
theorem answer_is_canonical {store : Settings.Store} {settings : Settings}
    (hload : store.load = .ok settings) {problem : String} {places products : Json} {d : Int}
    (hplaces : Question.choose places (settings.get Settings.placesName) = .integer d)
    {text : String}
    (h : (Question.answerFrom store ⟨.text problem, places, products⟩).outcome = .ok (.ok text)) :
    ∃ negative w, Displays (Display.clampPlaces d) text negative w := by
  rw [Question.outcome_answerFrom hload, Question.outcome_answer_text, hplaces] at h
  cases hvalue : (Question.value problem
      (Question.choose products (settings.get Settings.productsName)).isTruthy).outcome with
  | error fault =>
      rw [hvalue] at h
      cases h
  | ok x =>
      rw [hvalue] at h
      cases h
      obtain ⟨negative, rank, htext, hrounded⟩ :=
        Display.exists_result_eq (Question.isFinite_of_value hvalue) d
      rw [htext]
      exact ⟨_, _, displays_written negative hrounded⟩

/-- A third to four places. -/
theorem third_is_canonical :
    (Question.answerFrom .empty ⟨.text "1/3", .integer 4, .null⟩).outcome = .ok (.ok "0.3333") ∧
      ∃ negative w, Displays (Display.clampPlaces 4) "0.3333" negative w := by
  have hload : Settings.Store.empty.load = .ok Settings.defaults := rfl
  have hplaces : Question.choose (.integer 4) (Settings.defaults.get Settings.placesName) =
      .integer 4 := rfl
  have hanswer : (Question.answerFrom .empty ⟨.text "1/3", .integer 4, .null⟩).outcome =
      .ok (.ok "0.3333") := by decide +kernel
  exact ⟨hanswer, answer_is_canonical hload hplaces hanswer⟩

end Reckoner
