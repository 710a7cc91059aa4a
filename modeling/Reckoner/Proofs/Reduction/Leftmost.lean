import Reckoner.Proofs.Acceptance

/-!
# A pass is the repeated leftmost step

The textbook way to apply the operators of one level looks for the leftmost of them, replaces it and
its two neighbours by the result, and starts again from the beginning. A pass never goes back. It
keeps the tokens to its left in reverse, the value that it has just computed on top, and goes on
with what it has not read yet.

The two agree because nothing to the left of the pass is an operator of the level: a result is a
number, and whatever else was passed over was looked at. So the leftmost operator of the rebuilt
list is the first one that the pass has not read. This holds of every list, well-formed or not: an
operator can have a bracket, another operator or nothing beside it, and then both ways fail alike.

## Main results

* `reduceLeftmost`: the repeated leftmost step.
* `outcome_sweep_eq`: a pass with anything to its left that it would have passed over.
* `pass_eq_leftmost_steps`: a pass and the repeated leftmost step have the same outcome.
-/

namespace Reckoner

namespace Token

/-- The token as it stands inside a sentence of a message: symbols without quotes. -/
def plain : Token → String
  | number value => value.shortestText
  | symbol text => text

end Token

namespace Reduction

/-- The outcome of applying the operators with the given texts one after the other, always the
leftmost one that is left. The operator at position `i` is applied to the tokens beside it, which
together with it are the tokens from `i - 1` up to `i + 2`. -/
def reduceLeftmost (symbols : List String) (tokens : List Token) : Except Fault (List Token) :=
  match h : tokens.findIdx? (Token.isAmong symbols) with
  | none => .ok tokens
  | some i =>
      have hi : i < tokens.length := (List.findIdx?_eq_some_iff_getElem.1 h).1
      if i = 0 ∨ i = tokens.length - 1 then .error (.missingOperand tokens[i].plain)
      else do
        let result ← (Arithmetic.chainValue (tokens.extract (i - 1) (i + 2))).outcome
        reduceLeftmost symbols (tokens.take (i - 1) ++ .number result :: tokens.drop (i + 2))
termination_by tokens.length
decreasing_by
  simp only [List.length_append, List.length_take, List.length_cons, List.length_drop]
  omega

/-- No token is one of the given symbols. -/
def FreeOf (symbols : List String) (tokens : List Token) : Prop :=
  ∀ token ∈ tokens, token.isAmong symbols = false

section Steps

variable {symbols : List String} {front back : List Token} {text : String}

/-- Behind tokens that the level does not look for, its first operator is the leftmost one. -/
theorem findIdx?_leftmost (hfront : FreeOf symbols front) (htext : text ∈ symbols) :
    (front ++ .symbol text :: back).findIdx? (Token.isAmong symbols) = some front.length := by
  rw [List.findIdx?_eq_some_iff_getElem]
  refine ⟨by simp, by simpa [Token.isAmong] using htext, ?_⟩
  intro j hj
  rw [List.getElem_append_left hj]
  simpa using hfront _ (List.getElem_mem hj)

theorem reduceLeftmost_of_free (h : FreeOf symbols front) :
    reduceLeftmost symbols front = .ok front := by
  have hnone : front.findIdx? (Token.isAmong symbols) = none := by
    rw [List.findIdx?_eq_none_iff]
    exact h
  rw [reduceLeftmost]
  split
  · rfl
  · next i hi => simp [hnone] at hi

/-- The leftmost step, where the leftmost operator is known. -/
theorem reduceLeftmost_at (hfront : FreeOf symbols front) (htext : text ∈ symbols)
    {tokens : List Token} (htokens : tokens = front ++ .symbol text :: back) :
    reduceLeftmost symbols tokens =
      if front = [] ∨ back = [] then .error (.missingOperand text)
      else
        (Arithmetic.chainValue (tokens.extract (front.length - 1) (front.length + 2))).outcome.bind
          fun result => reduceLeftmost symbols
            (tokens.take (front.length - 1) ++
              .number result :: tokens.drop (front.length + 2)) := by
  subst htokens
  have hindex : (front ++ .symbol text :: back).findIdx? (Token.isAmong symbols) =
      some front.length := findIdx?_leftmost hfront htext
  have hends : (front = [] ∨ back = []) ↔
      (front.length = 0 ∨ front.length = (front ++ .symbol text :: back).length - 1) := by
    rw [← List.length_eq_zero_iff, ← List.length_eq_zero_iff, List.length_append, List.length_cons]
    omega
  rw [reduceLeftmost]
  split
  · next hnone => cases hindex.symm.trans hnone
  · next i hi =>
    obtain rfl : front.length = i := Option.some.inj (hindex.symm.trans hi)
    simp only [hends]
    split
    · simp [Token.plain]
    · rfl

/-- An operator with a token on either side is replaced with them by the result. -/
theorem reduceLeftmost_inside {left right : Token} (hfront : FreeOf symbols (front ++ [left]))
    (htext : text ∈ symbols) :
    reduceLeftmost symbols (front ++ left :: .symbol text :: right :: back) =
      (Arithmetic.chainValue [left, .symbol text, right]).outcome.bind fun result =>
        reduceLeftmost symbols (front ++ .number result :: back) := by
  have hlength : (front ++ [left]).length - 1 = front.length := by simp
  have hbehind : (front ++ [left]).length + 2 = front.length + 3 := by simp
  have hstep := reduceLeftmost_at hfront htext
    (List.append_cons front left (.symbol text :: right :: back))
  rw [if_neg (by simp), hlength, hbehind] at hstep
  rw [hstep, List.take_left, List.drop_append]
  simp [List.extract, List.drop_eq_nil_of_le]

end Steps

/-! ## Passes -/

theorem FreeOf.snoc {symbols : List String} {front : List Token} {token : Token}
    (hfront : FreeOf symbols front) (htoken : token.isAmong symbols = false) :
    FreeOf symbols (front ++ [token]) := by
  intro other hother
  rcases List.mem_append.1 hother with hother | hother
  · exact hfront other hother
  · rw [List.mem_singleton.1 hother]
    exact htoken

/-- A pass that has nothing of its level to its left. The leftmost operator of all tokens is then
the first one in front of the pass, and the result that is put in its place is no operator
either. -/
theorem outcome_sweep_eq {symbols : List String} (passed tokens : List Token)
    (hpassed : FreeOf symbols passed.reverse) :
    (sweep symbols passed tokens).outcome =
      reduceLeftmost symbols (passed.reverse ++ tokens) := by
  fun_induction sweep symbols passed tokens with
  | case1 passed =>
      rw [List.append_nil, reduceLeftmost_of_free hpassed]
      rfl
  | case2 text hmem left passed right rest equation ih =>
      have htext : text ∈ symbols := by simpa using hmem
      rw [List.reverse_cons] at hpassed
      have hbehind : FreeOf symbols passed.reverse := by
        intro token htoken
        exact hpassed token (List.mem_append_left _ htoken)
      have hrebuilt : ∀ result, FreeOf symbols (Token.number result :: passed).reverse := by
        intro result
        rw [List.reverse_cons]
        exact hbehind.snoc rfl
      rw [List.reverse_cons, List.append_assoc, List.singleton_append,
        reduceLeftmost_inside hpassed htext, Run.outcome_bind]
      congr 1
      funext result
      have hnext := ih result (hrebuilt result)
      rw [List.reverse_cons, List.append_assoc, List.singleton_append] at hnext
      exact hnext
  | case3 passed text rest hmem hends =>
      have htext : text ∈ symbols := by simpa using hmem
      have hedge : passed.reverse = [] ∨ rest = [] := by
        cases passed with
        | nil => exact Or.inl rfl
        | cons left passed =>
            cases rest with
            | nil => exact Or.inr rfl
            | cons right rest => exact absurd rfl (hends left passed right rest rfl)
      rw [reduceLeftmost_at hpassed htext rfl, if_pos hedge]
      rfl
  | case4 passed text rest hmem ih =>
      have hother : (Token.symbol text).isAmong symbols = false := by
        simpa [Token.isAmong] using hmem
      rw [List.reverse_cons] at ih
      rw [ih (hpassed.snoc hother), List.append_assoc, List.singleton_append]
  | case5 passed value rest ih =>
      rw [List.reverse_cons] at ih
      rw [ih (hpassed.snoc rfl), List.append_assoc, List.singleton_append]

/-- One pass over any tokens, with any symbols for its operators, ends as the repeated leftmost step
does: with the same tokens, or with the same fault. -/
theorem pass_eq_leftmost_steps (symbols : List String) (tokens : List Token) :
    (reduceLevel symbols tokens).outcome = reduceLeftmost symbols tokens := by
  exact outcome_sweep_eq [] tokens (by simp [FreeOf])

end Reduction

end Reckoner
