import Reckoner.Proofs.Grammar.Alike
import Reckoner.Reduction

/-!
# A pass over a chain is its value from left to right

A chain of numbers and operators can be computed in two ways. Its value from left to right goes over
the chain as a whole and keeps the value of what it has read. A pass puts that value in front of the
rest of the chain and computes the next operation as an equation of its own. If the pass looks for
all operators of the chain, both do the same operations in the same order, so they end with the same
number or fail in the same operation.

They may differ in what they show for the failure: an operation whose result is not finite shows the
equation that it stands in, which is the whole chain for one of them and three tokens for the other.

## Main results

* `operate_alike`: an operation does not depend on the equation that it stands in.
* `sweep_alike`: a pass with the value of what it has passed as its only token to the left.
* `chain_reduces_to_its_value`: a pass over a whole chain.
-/

namespace Reckoner

namespace Token

/-- The tokens of operators, each with the operand on its right. -/
def ofSteps (steps : List (Operator × Binary64)) : List Token :=
  steps.flatMap fun (op, operand) => [ofOperator op, number operand]

/-- A chain: a number, and operators each with the operand on its right. -/
def chain (first : Binary64) (steps : List (Operator × Binary64)) : List Token :=
  number first :: ofSteps steps

theorem ofSteps_cons (op : Operator) (operand : Binary64) (steps : List (Operator × Binary64)) :
    ofSteps ((op, operand) :: steps) = ofOperator op :: number operand :: ofSteps steps := rfl

theorem length_ofSteps (steps : List (Operator × Binary64)) :
    (ofSteps steps).length = 2 * steps.length := by
  induction steps with
  | nil => rfl
  | cons step steps ih =>
      rw [ofSteps_cons, List.length_cons, List.length_cons, ih, List.length_cons]
      omega

end Token

namespace Arithmetic

open Token

/-- An operation does not depend on the equation that it stands in, which only a fault can show. -/
theorem operate_alike (equation other : List Token) (op : Operator) (x y : Binary64) :
    Alike Eq (operate equation op x y).outcome (operate other op x y).outcome := by
  unfold operate
  cases op.apply x y with
  | error fault => exact .error rfl rfl
  | ok result =>
      simp only
      split
      · exact .ok rfl
      · exact .error rfl rfl

/-- The next operator of a chain is applied to the value so far. -/
theorem continueChain_cons (equation : List Token) (value : Binary64) (op : Operator)
    (operand : Binary64) (rest : List Token) :
    continueChain equation value (ofOperator op :: number operand :: rest) =
      operate equation op value operand >>= fun result => continueChain equation result rest := by
  have hop : (ofOperator op).operator? = some op := Operator.ofText?_text op
  rw [continueChain, hop]

theorem chainValue_chain (first : Binary64) (steps : List (Operator × Binary64)) :
    chainValue (chain first steps) = continueChain (chain first steps) first (ofSteps steps) := by
  have hlength : (ofSteps steps).length % 2 = 0 := by
    rw [length_ofSteps, Nat.mul_mod_right]
  rw [chain, chainValue, if_pos hlength]

/-- The value of an operator between two numbers. -/
theorem chainValue_operation (op : Operator) (x y : Binary64) :
    chainValue [number x, ofOperator op, number y] =
      operate [number x, ofOperator op, number y] op x y := by
  refine (chainValue_chain x [(op, y)]).trans ?_
  rw [ofSteps_cons, continueChain_cons]
  exact bind_pure _

end Arithmetic

namespace Reduction

open Token Arithmetic

/-- The list holds one number and nothing else. -/
def Holds (tokens : List Token) (value : Binary64) : Prop := tokens = [.number value]

/-- A pass that has reduced what it has passed to one number goes on as the chain does from that
number. The induction is on the operators that are left: after each of them the pass has again one
number to its left. -/
theorem sweep_alike {symbols : List String} (equation : List Token)
    (steps : List (Operator × Binary64)) :
    (∀ step ∈ steps, step.1.text ∈ symbols) → ∀ value : Binary64,
      Alike Holds (sweep symbols [.number value] (ofSteps steps)).outcome
        (continueChain equation value (ofSteps steps)).outcome := by
  induction steps with
  | nil =>
      intro _ value
      exact .ok rfl
  | cons step steps ih =>
      intro hsymbols value
      obtain ⟨op, operand⟩ := step
      have hop : op.text ∈ symbols := hsymbols (op, operand) List.mem_cons_self
      have hsteps : ∀ step ∈ steps, step.1.text ∈ symbols := by
        intro step hstep
        exact hsymbols step (List.mem_cons_of_mem _ hstep)
      have hsweep : (sweep symbols [.number value]
          (ofOperator op :: .number operand :: ofSteps steps)).outcome =
          (operate [.number value, ofOperator op, .number operand] op value operand).outcome.bind
            fun result => (sweep symbols [.number result] (ofSteps steps)).outcome := by
        rw [← chainValue_operation]
        exact outcome_sweep_operator hop _ _ _ _
      rw [ofSteps_cons, hsweep, continueChain_cons, Run.outcome_bind]
      refine (operate_alike _ equation op value operand).bind ?_
      rintro result _ rfl
      exact ih hsteps result

/-- A pass that looks for all operators of a chain, whatever else it looks for, leaves one number,
which is the value of the chain from left to right; if the chain has no value, the pass fails with
the same kind and code. -/
theorem chain_reduces_to_its_value {symbols : List String} (first : Binary64)
    {steps : List (Operator × Binary64)} (hsymbols : ∀ step ∈ steps, step.1.text ∈ symbols) :
    Alike Holds (reduceLevel symbols (chain first steps)).outcome
      (chainValue (chain first steps)).outcome := by
  rw [reduceLevel, chain, sweep_number, ← chain, chainValue_chain]
  exact sweep_alike _ steps hsymbols first

/-- A chain whose last operation fails, under all five operators: `2 + 1 * 3` is 9 from left to
right, and 9 is divided by zero. -/
theorem nine_is_divided_by_zero :
    let steps : List (Operator × Binary64) :=
      [(.sum, .ofNat 1), (.product, .ofNat 3), (.quotient, .ofNat 0)]
    (∀ step ∈ steps, step.1.text ∈ ["^", "*", "/", "+", "-"]) ∧
      (chainValue (chain (.ofNat 2) steps)).outcome = .error (.divisionByZero (.ofNat 9)) ∧
      Alike Holds (reduceLevel ["^", "*", "/", "+", "-"] (chain (.ofNat 2) steps)).outcome
        (chainValue (chain (.ofNat 2) steps)).outcome := by
  intro steps
  have hsymbols : ∀ step ∈ steps, step.1.text ∈ ["^", "*", "/", "+", "-"] := by decide
  exact ⟨hsymbols, by decide +kernel, chain_reduces_to_its_value (.ofNat 2) hsymbols⟩

end Reduction

end Reckoner
