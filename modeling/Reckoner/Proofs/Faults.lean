import Reckoner.Answer
import Reckoner.Proofs.Grammar.Reading
import Reckoner.Proofs.Precedence.Evaluation
import Reckoner.Proofs.Precedence.Parse

/-!
# The faults of a text

Every stage of an evaluation has faults of its own. Those of a text are the faults of its characters
and of the order of its tokens, and the faults of the operations in it. The others are faults of
tokens that no text is read as: a sentence is the token list of a parse tree, and of a tree nothing
but an operation can fail.

## Main results

* `isOfOrder_of_check`: what can be wrong with the order of tokens.
* `isOfText_of_read`: what can be wrong with a text before it is evaluated.
* `isOfText_of_mem_failures`: what can be wrong with an operation.
* `isOfText_of_value`: what can be wrong with a text at all.
-/

namespace Reckoner

namespace Fault

/-- The kinds and codes of the faults that a text can have. -/
def textCodes : List (Kind × String) :=
  [(.malformed, "3008"), (.malformed, "3009"), (.malformed, "3010"), (.malformed, "3011"),
    (.malformed, "3027"), (.malformed, "3028"), (.malformed, "3029"), (.malformed, "3031"),
    (.malformed, "3032"), (.calculation, "3026"), (.calculation, "3033"), (.divideByZero, "3003")]

/-- A fault of a text. -/
def IsOfText (fault : Fault) : Prop := (fault.kind, fault.code) ∈ textCodes

/-- The faults of texts are all but those of one code, which stands for problems that are no text,
for tokens that do not alternate, and for operators without an operand. -/
theorem isOfText_iff {fault : Fault} : fault.IsOfText ↔ fault.code ≠ "3012" := by
  cases fault <;> simp [IsOfText, textCodes, kind, code]

/-- The codes of what can be wrong with the order of tokens. -/
def orderCodes : List String := ["3009", "3010", "3011", "3027", "3028", "3029", "3031"]

/-- A fault of the order of tokens. -/
def IsOfOrder (fault : Fault) : Prop := fault.kind = .malformed ∧ fault.code ∈ orderCodes

theorem IsOfOrder.isOfText {fault : Fault} (h : fault.IsOfOrder) : fault.IsOfText := by
  rw [isOfText_iff]
  intro hcode
  have hlisted := h.2
  rw [hcode] at hlisted
  revert hlisted
  decide

end Fault

open Fault

/-! ## Faults of reading -/

/-- What fails with one token in front fails without it. -/
theorem Token.eq_error_of_map {token : Token} {cutRest : Except Fault (List Token)} {fault : Fault}
    (h : cutRest.map (token :: ·) = .error fault) : cutRest = .error fault := by
  cases cutRest with
  | error other =>
      cases h
      rfl
  | ok tokens => cases h

theorem Token.isOfText_of_cut {position : Nat} {text : List Char} {fault : Fault}
    (h : cut position text = .error fault) : fault.IsOfText := by
  fun_induction cut position text with
  | case1 => cases h
  | case2 | case3 | case6 | case7 =>
      cases h
      exact isOfText_iff.2 (by decide : "3008" ≠ "3012")
  | case5 | case9 =>
      cases h
      exact isOfText_iff.2 (by decide : "3026" ≠ "3012")
  | case13 =>
      cases h
      exact isOfText_iff.2 (by decide : "3032" ≠ "3012")
  | case4 _ _ _ _ _ _ _ _ _ _ _ ih => exact ih (eq_error_of_map h)
  | case8 _ _ _ _ _ _ _ _ _ _ _ ih => exact ih (eq_error_of_map h)
  | case10 _ _ _ _ _ ih => exact ih (eq_error_of_map h)
  | case11 _ _ _ _ _ ih => exact ih (eq_error_of_map h)
  | case12 _ _ _ _ _ ih => exact ih h

namespace Sentence

theorem isOfOrder_of_read {sentence : Sentence} {token : Token} {fault : Fault}
    (h : sentence.read token = .error fault) : fault.IsOfOrder := by
  cases token with
  | number value =>
      simp only [read] at h
      split at h
      · cases h
      · cases h
        simp [IsOfOrder, Fault.kind, Fault.code, orderCodes]
  | symbol text =>
      simp only [read, openGroup, closeGroup, readOperator] at h
      repeat' split at h
      all_goals cases h <;> simp [IsOfOrder, Fault.kind, Fault.code, orderCodes]

theorem isOfOrder_of_finish {sentence : Sentence} {fault : Fault}
    (h : sentence.finish = .error fault) : fault.IsOfOrder := by
  simp only [finish] at h
  repeat' split at h
  all_goals cases h <;> simp [IsOfOrder, Fault.kind, Fault.code, orderCodes]

theorem isOfOrder_of_foldlM {tokens : List Token} {fault : Fault} :
    ∀ sentence : Sentence, (tokens.foldlM read sentence >>= finish) = .error fault →
      fault.IsOfOrder := by
  induction tokens with
  | nil =>
      intro sentence h
      exact isOfOrder_of_finish h
  | cons token tokens ih =>
      intro sentence h
      rw [List.foldlM_cons] at h
      cases hread : sentence.read token with
      | error fault' =>
          rw [hread] at h
          cases h
          exact isOfOrder_of_read hread
      | ok next =>
          rw [hread] at h
          exact ih next h

/-- What can be wrong with the order of tokens. -/
theorem isOfOrder_of_check {tokens : List Token} {fault : Fault}
    (h : check tokens = .error fault) : fault.IsOfOrder := by
  unfold check at h
  split at h
  · cases h
    exact ⟨rfl, by decide⟩
  · exact isOfOrder_of_foldlM start h

end Sentence

/-- What can be wrong with a text that can be cut. -/
theorem Token.isOfOrder_of_read {writesProducts : Bool} {text : List Char} {unsigned : List Token}
    {fault : Fault} (hcut : cut 0 text = .ok unsigned)
    (h : Token.read writesProducts text = .error fault) : fault.IsOfOrder := by
  rw [Token.read, hcut] at h
  have hread : (Sentence.check (resolve writesProducts none unsigned) >>= fun _ =>
      .ok (resolve writesProducts none unsigned)) = Except.error fault := h
  cases hcheck : Sentence.check (resolve writesProducts none unsigned) with
  | error fault' =>
      rw [hcheck] at hread
      cases hread
      exact Sentence.isOfOrder_of_check hcheck
  | ok =>
      rw [hcheck] at hread
      cases hread

/-- A text that cannot be cut is not read. -/
theorem Token.read_of_cut {text : List Char} {fault : Fault} (h : cut 0 text = .error fault)
    (writesProducts : Bool) : Token.read writesProducts text = .error fault := by
  rw [Token.read, h]
  rfl

/-- What can be wrong with a text before it is evaluated. -/
theorem Token.isOfText_of_read {writesProducts : Bool} {text : List Char} {fault : Fault}
    (h : Token.read writesProducts text = .error fault) : fault.IsOfText := by
  cases hcut : cut 0 text with
  | error fault' =>
      rw [read_of_cut hcut] at h
      cases h
      exact isOfText_of_cut hcut
  | ok unsigned => exact (isOfOrder_of_read hcut h).isOfText

/-! ## Faults of evaluation -/

/-- An operation fails because its operator cannot be applied, or because its result is not
finite. -/
theorem ParseTree.operation_eq_error {op : Operator} {x y : Binary64} {fault : Fault}
    (h : operation op x y = .error fault) :
    op.apply x y = .error fault ∨
      fault = .resultTooLarge [.number x, .ofOperator op, .number y] := by
  have hop : (Token.ofOperator op).operator? = some op := Operator.ofText?_text op
  simp only [operation, Arithmetic.chainValue, List.length_cons, List.length_nil, Nat.reduceAdd,
    Nat.reduceMod, if_true, Arithmetic.continueChain, hop, Run.outcome_bind] at h
  unfold Arithmetic.operate at h
  split at h
  · next fault' happly =>
    left
    rw [happly]
    exact h
  · next result happly =>
    split at h
    · cases h
    · right
      cases h
      rfl

/-- What can be wrong with an operation. -/
theorem ParseTree.isOfText_of_operation {op : Operator} {x y : Binary64} {fault : Fault}
    (h : operation op x y = .error fault) : fault.IsOfText := by
  rw [isOfText_iff]
  rcases operation_eq_error h with happly | rfl
  · cases op with
    | power =>
        simp only [Operator.apply, Binary64.power] at happly
        repeat' split at happly
        all_goals cases happly <;> simp [Fault.code]
    | quotient =>
        simp only [Operator.apply, Binary64.quotient] at happly
        split at happly
        all_goals cases happly <;> simp [Fault.code]
    | product | sum | difference => cases happly
  · simp [Fault.code]

/-- Whatever fails in a tree is an operation. -/
theorem ParseTree.isOfText_of_mem_failures {level : Nat} (t : ParseTree level) :
    ∀ start close : Nat, ∀ f ∈ t.failures start close, f.fault.IsOfText := by
  induction t with
  | number value =>
      intro start close f hf
      cases hf
  | group inner ih =>
      intro start close f hf
      exact ih _ _ f hf
  | single part ih =>
      intro start close f hf
      exact ih _ _ f hf
  | node left op hop right ihleft ihright =>
      intro start close f hf
      simp only [failures, List.mem_append] at hf
      rcases hf with hf | hf | hf
      · exact ihleft _ _ f hf
      · exact ihright _ _ f hf
      · obtain ⟨x, y, fault, -, -, hfault, rfl⟩ := mem_failureOf hf
        exact isOfText_of_operation hfault

/-- What can be wrong with the value of a sentence: it is the tokens of a parse tree. -/
theorem Reduction.isOfText_of_value {phrase : Phrase Binary64 Operator .expression} {fault : Fault}
    (h : (Reduction.value phrase.tokens).outcome = .error fault) : fault.IsOfText := by
  obtain ⟨t, ht⟩ := phrase.exists_tree
  rw [← ht] at h
  rcases t.value_tokens_of_failures with ⟨-, hok⟩ | ⟨f, hfirst, hfails⟩
  · rw [hok] at h
    cases h
  · rw [hfails] at h
    cases h
    exact t.isOfText_of_mem_failures _ _ f hfirst.mem

/-- The value of a text is that of the tokens it is read as. -/
theorem Question.outcome_value (problem : String) (writesProducts : Bool) :
    (Question.value problem writesProducts).outcome =
      (Token.read writesProducts (Text.dropBlanks problem.toList)).bind fun tokens =>
        (Reduction.value tokens).outcome := by
  simp only [Question.value, Run.outcome_bind, Run.outcome_reportError, Run.outcome_ofExcept,
    Run.outcome_report]
  cases Token.read writesProducts (Text.dropBlanks problem.toList) <;> rfl

/-- What can be wrong with a text. -/
theorem Question.isOfText_of_value {problem : String} {writesProducts : Bool} {fault : Fault}
    (h : (Question.value problem writesProducts).outcome = .error fault) : fault.IsOfText := by
  rw [Question.outcome_value] at h
  cases hread : Token.read writesProducts (Text.dropBlanks problem.toList) with
  | error fault' =>
      rw [hread] at h
      cases h
      exact Token.isOfText_of_read hread
  | ok tokens =>
      rw [hread] at h
      obtain ⟨expression, -, -, rfl⟩ := Phrase.exists_expression_of_read hread
      exact Reduction.isOfText_of_value h

end Reckoner
