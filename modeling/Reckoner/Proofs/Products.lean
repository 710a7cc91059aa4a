import Mathlib.Data.List.Chain
import Reckoner.Proofs.Answer
import Reckoner.Proofs.Grammar.Viable

/-!
# Products that need not be written

Where products need not be written the language grows, and nothing that was said before changes its
meaning. A product is written out between two neighbours of which the left one ends an operand and
the right one begins another. In a sentence an operator is due there, so no sentence has such
neighbours, and every sentence is left as it is.

Texts are cut and signs are folded in the same way in either language. A text of the smaller
language therefore has the same tokens in the larger one, and a literal that is too big is refused
in both. Only what is no sentence of the smaller language can have another answer in the larger one.

## Main results

* `insertProducts_eq_self_iff`: the lists to which no product is added.
* `isChain_of_accepts`: no two neighbours in a sentence are factors. The induction is on the tokens,
  with the last token before them as the left neighbour of the first.
* `unwritten_products_are_conservative`: the larger language is a conservative extension.
-/

namespace Reckoner

namespace Token

/-- Two neighbours with nothing to write between them. -/
def Separate (left right : Token) : Prop := multiplies left right = false

/-- Products are added exactly between neighbours that are factors. -/
theorem insertProducts_eq_self_iff {tokens : List Token} :
    insertProducts tokens = tokens ↔ tokens.IsChain Separate := by
  induction tokens with
  | nil => simp [insertProducts]
  | cons left tokens ih =>
      cases tokens with
      | nil => simp [insertProducts]
      | cons right rest =>
          rw [List.isChain_cons_cons, ← ih, insertProducts]
          unfold Separate
          split
          · next hfactors =>
            constructor
            · intro h
              have hright : ofOperator .product = right := (List.cons.inj (List.cons.inj h).2).1
              rw [← hright, multiplies_product_right] at hfactors
              cases hfactors
            · rintro ⟨hseparate, -⟩
              rw [hseparate] at hfactors
              cases hfactors
          · next hseparate => simp [hseparate]

/-- The left one of two factors ends an operand, and the right one begins another. -/
theorem operandDue_of_multiplies {left right : Token} (h : multiplies left right = true) :
    Sentence.operandDue (some left) = false ∧
      ((∃ value, right = .number value) ∨ right = .opening) := by
  have hclosing : Sentence.operandDue (some .closing) = false := rfl
  simp only [multiplies, Bool.or_eq_true, Bool.and_eq_true, beq_iff_eq] at h
  rcases h with ⟨hnumber | hleft, hright⟩ | ⟨hleft, hnumber⟩
  · cases left with
    | number value => exact ⟨rfl, Or.inr hright⟩
    | symbol text => cases hnumber
  · rw [hleft]
    exact ⟨hclosing, Or.inr hright⟩
  · rw [hleft]
    cases right with
    | number value => exact ⟨hclosing, Or.inl ⟨value, rfl⟩⟩
    | symbol text => cases hnumber

end Token

/-! ## Sentences -/

namespace Sentence

open Token

/-- A token that is read is no factor beside the last one. -/
theorem separate_of_read {sentence next : Sentence} {left token : Token}
    (hleft : sentence.previous = some left) (h : sentence.read token = .ok next) :
    Separate left token := by
  apply Bool.eq_false_iff.2
  intro hfactors
  obtain ⟨hdue, hoperand⟩ := operandDue_of_multiplies hfactors
  obtain ⟨depth, previous⟩ := sentence
  obtain rfl : previous = some left := hleft
  have hnot : operandDue (some left) = true := by
    rcases hoperand with ⟨value, rfl⟩ | rfl
    · exact (read_number_eq_ok.1 h).1
    · exact (read_opening_eq_ok.1 h).1
  rw [hdue] at hnot
  cases hnot

/-- Tokens that complete what has been read have no factors side by side, and the first of them is
none beside the last token before them. -/
theorem isChain_of_accepts {tokens : List Token} :
    ∀ {sentence : Sentence}, sentence.Accepts tokens →
      (sentence.previous.toList ++ tokens).IsChain Separate := by
  induction tokens with
  | nil =>
      intro sentence _
      cases sentence.previous with
      | none => exact List.isChain_nil
      | some left => exact List.isChain_singleton _
  | cons token tokens ih =>
      intro sentence h
      obtain ⟨next, hread, hnext⟩ := accepts_cons.1 h
      have hrest := ih hnext
      rw [previous_of_read hread, Option.toList_some, List.singleton_append] at hrest
      cases hleft : sentence.previous with
      | none => exact hrest
      | some left => exact List.isChain_cons_cons.2 ⟨separate_of_read hleft hread, hrest⟩

/-- A sentence is left as it is when products are written out. -/
theorem insertProducts_of_check {tokens : List Token} (h : check tokens = .ok ()) :
    insertProducts tokens = tokens := by
  apply insertProducts_eq_self_iff.2
  exact isChain_of_accepts (check_eq_ok.1 h).2

end Sentence

/-! ## Texts -/

namespace Token

/-- What is read without products that are not written is read with them. -/
theorem read_true_of_read_false {text : List Char} {tokens : List Token}
    (h : read false text = .ok tokens) : read true text = .ok tokens := by
  obtain ⟨unsigned, hcut, hresolve, hcheck⟩ := Phrase.read_eq_ok.1 h
  refine Phrase.read_eq_ok.2 ⟨unsigned, hcut, ?_, hcheck⟩
  have hsigned : foldSigns none unsigned = tokens := hresolve
  show insertProducts (foldSigns none unsigned) = tokens
  rw [hsigned, Sentence.insertProducts_of_check hcheck]

/-- A fault that is not one of the order of tokens is found before products are written out. -/
theorem read_true_of_fault {text : List Char} {fault : Fault} (hkind : fault.kind ≠ .malformed)
    (h : read false text = .error fault) : read true text = .error fault := by
  cases hcut : cut 0 text with
  | error other =>
      rw [read_of_cut hcut] at h ⊢
      exact h
  | ok unsigned => exact absurd (isOfOrder_of_read hcut h).1 hkind

end Token

/-! ## Answers -/

/-- A displayed value, or a report of a fault of calculation. -/
def Answer.IsCalculated : Answer → Prop
  | .ok _ => True
  | .error report => report.kind.isA .calculation = true

namespace Question

/-- A text that has a value, or a fault of calculation, has the same with unwritten products. -/
theorem value_true_of_value_false {problem : String} {result : Except Fault Binary64}
    (hkind : ∀ fault, result = .error fault → fault.kind ≠ .malformed)
    (h : (value problem false).outcome = result) : (value problem true).outcome = result := by
  rw [outcome_value] at h ⊢
  cases hread : Token.read false (Text.dropBlanks problem.toList) with
  | ok tokens =>
      rw [hread] at h
      rw [Token.read_true_of_read_false hread]
      exact h
  | error fault =>
      rw [hread] at h
      rw [Token.read_true_of_fault (hkind fault h.symm) hread]
      exact h

/-- A text that has a calculated answer has no fault of the order of tokens. -/
theorem kind_of_isCalculated {settings : Settings} {problem : String} {places products : Json}
    {answer : Answer} (hcalculated : answer.IsCalculated)
    (h : (Question.answer settings ⟨.text problem, places, products⟩).outcome = .ok answer) :
    ∀ fault, (value problem
        (choose products (settings.get Settings.productsName)).isTruthy).outcome = .error fault →
      fault.kind ≠ .malformed := by
  intro fault hfault hkind
  rw [outcome_answer_text, hfault] at h
  obtain rfl := Except.ok.inj h
  have hcalculation : fault.kind.isA .calculation = true := hcalculated
  rw [hkind] at hcalculation
  cases hcalculation

/-- An answer that is calculated does not change when products need not be written. -/
theorem answer_true_of_answer_false {settings : Settings} {problem : String} {places : Json}
    {answer : Answer} (hcalculated : answer.IsCalculated)
    (h : (Question.answer settings ⟨.text problem, places, .bool false⟩).outcome = .ok answer) :
    (Question.answer settings ⟨.text problem, places, .bool true⟩).outcome = .ok answer := by
  have hkind := kind_of_isCalculated hcalculated h
  have hvalue : (value problem true).outcome = (value problem false).outcome :=
    value_true_of_value_false hkind rfl
  rw [outcome_answer_text] at h ⊢
  simp only [choose, Json.isTruthy] at h ⊢
  rw [hvalue]
  exact h

end Question

/-- Products that need not be written are a conservative extension. Writing them out once is
enough, and no sentence has any. What is read without them is read as the same tokens with them,
and what is answered without them by a value, or by the report of a fault of calculation, has the
same answer with them, whatever the settings and the number of places are. -/
theorem unwritten_products_are_conservative :
    (∀ tokens : List Token,
        Token.insertProducts (Token.insertProducts tokens) = Token.insertProducts tokens) ∧
      (∀ tokens : List Token, Sentence.check tokens = .ok () →
        Token.insertProducts tokens = tokens) ∧
      (∀ (text : List Char) (tokens : List Token), Token.read false text = .ok tokens →
        Token.read true text = .ok tokens) ∧
      ∀ (store : Settings.Store) (problem : String) (places : Json) (answer : Answer),
        answer.IsCalculated →
          (Question.answerFrom store ⟨.text problem, places, .bool false⟩).outcome = .ok answer →
            (Question.answerFrom store ⟨.text problem, places, .bool true⟩).outcome =
              .ok answer := by
  refine ⟨Token.insertProducts_idem, ?_, ?_, ?_⟩
  · intro tokens hcheck
    exact Sentence.insertProducts_of_check hcheck
  · intro text tokens hread
    exact Token.read_true_of_read_false hread
  · intro store problem places answer hcalculated hanswer
    obtain ⟨settings, hload, h⟩ := Run.outcome_bind_eq_ok.1 hanswer
    rw [Question.outcome_answerFrom hload]
    exact Question.answer_true_of_answer_false hcalculated h

/-- A division by zero has no product to write out, is read alike and has the same report. -/
theorem division_by_zero_keeps_its_report :
    (Sentence.check [.number (.ofNat 1), .symbol "/", .number (.ofNat 0)] = .ok () ∧
        Token.insertProducts [.number (.ofNat 1), .symbol "/", .number (.ofNat 0)] =
          [.number (.ofNat 1), .symbol "/", .number (.ofNat 0)]) ∧
      (Token.read false ['1', '/', '0'] =
          .ok [.number (.ofNat 1), .symbol "/", .number (.ofNat 0)] ∧
        Token.read true ['1', '/', '0'] =
          .ok [.number (.ofNat 1), .symbol "/", .number (.ofNat 0)]) ∧
      Answer.IsCalculated (.error (Report.ofFault (.divisionByZero (.ofNat 1)) (some "1/0"))) ∧
      (Question.answerFrom .empty ⟨.text "1/0", .integer 2, .bool false⟩).outcome =
        .ok (.error (Report.ofFault (.divisionByZero (.ofNat 1)) (some "1/0"))) ∧
      (Question.answerFrom .empty ⟨.text "1/0", .integer 2, .bool true⟩).outcome =
        .ok (.error (Report.ofFault (.divisionByZero (.ofNat 1)) (some "1/0"))) := by
  have hcheck : Sentence.check [.number (.ofNat 1), .symbol "/", .number (.ofNat 0)] = .ok () := by
    decide +kernel
  have hread : Token.read false ['1', '/', '0'] =
      .ok [.number (.ofNat 1), .symbol "/", .number (.ofNat 0)] := by decide +kernel
  have hcalculated : Answer.IsCalculated
      (.error (Report.ofFault (.divisionByZero (.ofNat 1)) (some "1/0"))) := rfl
  have hanswer : (Question.answerFrom .empty ⟨.text "1/0", .integer 2, .bool false⟩).outcome =
      .ok (.error (Report.ofFault (.divisionByZero (.ofNat 1)) (some "1/0"))) := by decide +kernel
  obtain ⟨-, hkeeps, hreads, hanswers⟩ := unwritten_products_are_conservative
  exact ⟨⟨hcheck, hkeeps _ hcheck⟩, ⟨hread, hreads _ _ hread⟩, hcalculated, hanswer,
    hanswers _ _ _ _ hcalculated hanswer⟩

end Reckoner
