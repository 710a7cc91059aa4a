import Reckoner.Proofs.Faults

/-!
# Calculations stay finite

A numeral beyond the finite range is refused when it is read, and an operation whose result is not
finite fails. So every number of a calculation is finite, the value of a text among them.

## Main results

* `ParseTree.isFinite_of_value?`: a tree over finite numbers has a finite value.
* `Question.isFinite_of_value`: the value of a text is finite.
-/

namespace Reckoner

theorem SignedNumeral.isFinite_value (numeral : SignedNumeral) :
    numeral.value.isFinite = true := by
  obtain ⟨sign, numeral⟩ := numeral
  match sign with
  | none => exact numeral.isFinite
  | some .plus => exact numeral.isFinite
  | some .minus => exact (Binary64.isFinite_neg _).trans numeral.isFinite

/-- The numbers that a text means are finite. -/
theorem Phrase.isFinite_of_mem_tokens {part : Part}
    (phrase : Phrase SignedNumeral (Option Operator) part) (value : Binary64)
    (h : .number value ∈ phrase.meaning.tokens) : value.isFinite = true := by
  induction phrase with
  | leaf numeral =>
      obtain rfl := Token.number.inj (List.mem_singleton.1 h)
      exact numeral.isFinite_value
  | group inner ih =>
      refine ih ?_
      simpa [meaning, map, Token.opening, Token.closing] using h
  | single operand ih => exact ih h
  | join left how right ihleft ihright =>
      have hcases : .number value ∈ left.meaning.tokens ∨ .number value ∈ right.meaning.tokens := by
        simpa [meaning, map, Token.ofOperator] using h
      exact hcases.elim ihleft ihright

namespace ParseTree

/-- What an operation gives is finite. -/
theorem isFinite_of_operation {op : Operator} {x y result : Binary64}
    (h : operation op x y = .ok result) : result.isFinite = true := by
  have hop : (Token.ofOperator op).operator? = some op := Operator.ofText?_text op
  simp only [operation, Arithmetic.chainValue, List.length_cons, List.length_nil, Nat.reduceAdd,
    Nat.reduceMod, if_true, Arithmetic.continueChain, hop, Run.outcome_bind] at h
  unfold Arithmetic.operate at h
  split at h
  · cases h
  · split at h
    · next hfinite =>
      cases h
      exact hfinite
    · cases h

/-- A tree over finite numbers has a finite value. -/
theorem isFinite_of_value? {level : Nat} {t : ParseTree level} {x : Binary64}
    (hleaves : ∀ value, .number value ∈ t.tokens → value.isFinite = true)
    (h : t.value? = some x) : x.isFinite = true := by
  induction t generalizing x with
  | number value =>
      cases h
      exact hleaves value (List.mem_singleton.2 rfl)
  | group inner ih =>
      refine ih (fun value hvalue => hleaves value ?_) h
      simp [tokens, hvalue]
  | single part ih => exact ih hleaves h
  | node left op hop right ihleft ihright =>
      simp only [value?, Option.bind_eq_some_iff] at h
      obtain ⟨y, -, z, -, hoperation⟩ := h
      cases hresult : operation op y z with
      | error fault =>
          rw [hresult] at hoperation
          cases hoperation
      | ok result =>
          rw [hresult] at hoperation
          cases hoperation
          exact isFinite_of_operation hresult

end ParseTree

/-- The value of a text is finite. -/
theorem Question.isFinite_of_value {problem : String} {writesProducts : Bool} {x : Binary64}
    (h : (Question.value problem writesProducts).outcome = .ok x) : x.isFinite = true := by
  rw [Question.outcome_value] at h
  cases hread : Token.read writesProducts (Text.dropBlanks problem.toList) with
  | error fault =>
      rw [hread] at h
      cases h
  | ok tokens =>
      rw [hread] at h
      have hvalue : (Reduction.value tokens).outcome = .ok x := h
      obtain ⟨expression, -, -, rfl⟩ := Phrase.exists_expression_of_read hread
      obtain ⟨t, ht⟩ := expression.meaning.exists_tree
      rw [← ht] at hvalue
      rcases t.value_tokens_of_failures with ⟨hnone, hok⟩ | ⟨f, -, hfails⟩
      · have hresult := ParseTree.result_of_failures_eq_nil hnone
        rw [hok] at hvalue
        cases hvalue
        refine ParseTree.isFinite_of_value? (fun value hmem => ?_) hresult
        rw [ht] at hmem
        exact expression.isFinite_of_mem_tokens value hmem
      · rw [hfails] at hvalue
        cases hvalue

end Reckoner
