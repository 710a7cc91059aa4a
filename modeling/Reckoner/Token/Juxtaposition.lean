import Reckoner.Token

/-!
# Products without an operator

A bracket group beside a number, or beside another group, is multiplied with it: `2(3)`, `(2)3`
and `(2)(3)` are products. Two numbers are never side by side in a text.

## Main results

* `insertProducts_idem`: a second run inserts nothing.
-/

namespace Reckoner.Token

/-- Whether two neighbouring tokens are factors of a product that is not written. -/
def multiplies (left right : Token) : Bool :=
  (left.isNumber || left == closing) && right == opening || left == closing && right.isNumber

/-- The tokens with every product written out. -/
def insertProducts : List Token → List Token
  | left :: right :: rest =>
      if multiplies left right then
        left :: ofOperator .product :: insertProducts (right :: rest)
      else left :: insertProducts (right :: rest)
  | tokens => tokens

/-! ## Laws -/

theorem multiplies_product_right (left : Token) :
    multiplies left (ofOperator .product) = false := by
  cases left <;> simp [multiplies, ofOperator, opening, closing, isNumber, Operator.text]

theorem multiplies_product_left (right : Token) :
    multiplies (ofOperator .product) right = false := by
  simp [multiplies, ofOperator, closing, isNumber, Operator.text]

/-- The first token stays first. -/
theorem head?_insertProducts (tokens : List Token) :
    (insertProducts tokens).head? = tokens.head? := by
  fun_cases insertProducts tokens <;> simp_all

/-- In front of written-out products a token is inserted only for the first pair. -/
theorem insertProducts_cons (left : Token) (tokens : List Token) :
    insertProducts (left :: tokens) =
      match tokens.head? with
      | some right =>
          if multiplies left right then left :: ofOperator .product :: insertProducts tokens
          else left :: insertProducts tokens
      | none => [left] := by
  cases tokens with
  | nil => rfl
  | cons right rest => rw [insertProducts]; simp

/-- A second run inserts nothing. -/
theorem insertProducts_idem (tokens : List Token) :
    insertProducts (insertProducts tokens) = insertProducts tokens := by
  induction tokens with
  | nil => rfl
  | cons left tokens ih =>
      have hhead := head?_insertProducts tokens
      cases tokens with
      | nil => rfl
      | cons right rest =>
          rw [insertProducts]
          by_cases h : multiplies left right = true
          · rw [if_pos h, insertProducts_cons, List.head?_cons]
            simp only [multiplies_product_right, Bool.false_eq_true, if_false]
            rw [insertProducts_cons, hhead, ih]
            simp [multiplies_product_left]
          · rw [if_neg h, insertProducts_cons, hhead, ih]
            simp [h]

end Reckoner.Token
