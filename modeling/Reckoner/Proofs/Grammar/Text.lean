import Reckoner.Proofs.Grammar.Phrase
import Reckoner.Proofs.Grammar.Spelling

/-!
# The grammar of texts

A text is an infix expression of numerals that may carry a sign. Where products need not be written
the join of two operands may be left out, if one of them is a bracket group and the right one has no
sign.

## Main results

* `isChain_words`: in an allowed phrase no two numerals are neighbours.
* `multiplies_lastToken`: the joins that may be left out are those that the tokens show.
-/

namespace Reckoner

inductive Sign where
  | plus
  | minus
deriving DecidableEq, Repr

/-- The operator that is written like a sign. -/
def Sign.operator : Sign → Operator
  | plus => .sum
  | minus => .difference

/-- The characters of a sign, of which there may be none. -/
def Sign.spelling (sign : Option Sign) : List Char := sign.toList.map fun sign => sign.operator.char

/-- A numeral with or without a sign. -/
structure SignedNumeral where
  sign : Option Sign
  numeral : Numeral

namespace SignedNumeral

def words : SignedNumeral → List Word
  | ⟨none, numeral⟩ => [.numeral numeral]
  | ⟨some sign, numeral⟩ => [.operator sign.operator, .numeral numeral]

def value : SignedNumeral → Binary64
  | ⟨some .minus, numeral⟩ => numeral.value.neg
  | ⟨_, numeral⟩ => numeral.value

end SignedNumeral

namespace Phrase

/-- The words of a phrase of a text, where a join may be left out. -/
def words {part : Part} (phrase : Phrase SignedNumeral (Option Operator) part) : List Word :=
  phrase.yield SignedNumeral.words (fun how => how.toList.map Word.operator) .opening .closing

/-- What a phrase of a text means: a join that is left out is a product. -/
def meaning {part : Part} (phrase : Phrase SignedNumeral (Option Operator) part) :
    Phrase Binary64 Operator part :=
  phrase.map SignedNumeral.value fun how => how.getD .product

/-- Whether the last operand is a bracket group. -/
def endsInGroup {Leaf Join : Type} : {part : Part} → Phrase Leaf Join part → Bool
  | _, leaf _ => false
  | _, group _ => true
  | _, single operand => operand.endsInGroup
  | _, join _ _ right => right.endsInGroup

/-- Whether the first symbol is the sign of a numeral. -/
def startsSigned {Join : Type} : {part : Part} → Phrase SignedNumeral Join part → Bool
  | _, leaf numeral => numeral.sign.isSome
  | _, group _ => false
  | _, single operand => operand.startsSigned
  | _, join left _ _ => left.startsSigned

/-- Joins are left out only where products need not be written, beside a bracket group, and not in
front of a sign. -/
def IsAllowed (writesProducts : Bool) :
    {part : Part} → Phrase SignedNumeral (Option Operator) part → Prop
  | _, leaf _ => True
  | _, group inner => inner.IsAllowed writesProducts
  | _, single operand => operand.IsAllowed writesProducts
  | _, join left how right =>
      left.IsAllowed writesProducts ∧ right.IsAllowed writesProducts ∧
        (how = none → writesProducts = true ∧
          (left.endsInGroup = true ∨ right.endsInGroup = true) ∧ right.startsSigned = false)

section Words

variable (numeral : SignedNumeral) (inner left : Phrase SignedNumeral (Option Operator) .expression)
  (operand right : Phrase SignedNumeral (Option Operator) .operand) (how : Option Operator)

@[simp] theorem words_leaf :
    (leaf numeral : Phrase _ (Option Operator) _).words = numeral.words := rfl

@[simp] theorem words_group : (group inner).words = .opening :: (inner.words ++ [.closing]) := rfl

@[simp] theorem words_single : (single operand).words = operand.words := rfl

@[simp] theorem words_join :
    (join left how right).words = left.words ++ (how.toList.map Word.operator ++ right.words) :=
  rfl

end Words

/-! ## Neighbours -/

/-- The last word of a phrase that ends in a group. -/
theorem getLast?_words {part : Part} {phrase : Phrase SignedNumeral (Option Operator) part}
    (h : phrase.endsInGroup = true) : phrase.words.getLast? = some .closing := by
  induction phrase with
  | leaf numeral => cases h
  | group inner _ => rw [words_group, ← List.cons_append, List.getLast?_concat]
  | single operand ih => exact ih h
  | join left how right _ ih => simp [ih h]

/-- The first word of a group. -/
theorem head?_words {operand : Phrase SignedNumeral (Option Operator) .operand}
    (h : operand.endsInGroup = true) : operand.words.head? = some .opening := by
  cases operand with
  | leaf numeral => cases h
  | group inner => rfl

/-- No two numerals are neighbours in an allowed phrase. -/
theorem isChain_words {writesProducts : Bool} {part : Part}
    {phrase : Phrase SignedNumeral (Option Operator) part} (h : phrase.IsAllowed writesProducts) :
    phrase.words.IsChain Word.Apart := by
  induction phrase with
  | leaf numeral =>
      obtain ⟨sign, numeral⟩ := numeral
      cases sign with
      | none => exact List.isChain_singleton _
      | some sign => exact List.isChain_pair.2 (Or.inl rfl)
  | group inner ih =>
      rw [words_group, ← List.singleton_append, List.isChain_append, List.isChain_append]
      refine ⟨List.isChain_singleton _, ⟨ih h, List.isChain_singleton _, ?_⟩, ?_⟩
      · intro last _ next hnext
        obtain rfl : .closing = next := Option.some.inj hnext
        exact Or.inr rfl
      · intro last hlast next _
        obtain rfl : .opening = last := Option.some.inj hlast
        exact Or.inl rfl
  | single operand ih => exact ih h
  | join left how right ihleft ihright =>
      obtain ⟨hleft, hright, hhow⟩ := h
      rw [words_join, List.isChain_append]
      cases how with
      | none =>
          refine ⟨ihleft hleft, ihright hright, ?_⟩
          intro last hlast next hnext
          obtain ⟨-, hgroup | hgroup, -⟩ := hhow rfl
          · rw [getLast?_words hgroup] at hlast
            obtain rfl : .closing = last := Option.some.inj hlast
            exact Or.inl rfl
          · have hfirst := head?_words hgroup
            rw [show (Option.none.toList.map Word.operator ++ right.words).head? = some .opening
              from hfirst] at hnext
            obtain rfl : .opening = next := Option.some.inj hnext
            exact Or.inr rfl
      | some op =>
          rw [Option.toList_some, List.map_singleton, List.isChain_append]
          refine ⟨ihleft hleft, ⟨List.isChain_singleton _, ihright hright, ?_⟩, ?_⟩
          · intro last hlast next _
            obtain rfl : .operator op = last := Option.some.inj hlast
            exact Or.inl rfl
          · intro last _ next hnext
            obtain rfl : .operator op = next := Option.some.inj hnext
            exact Or.inr rfl

/-! ## First and last tokens -/

/-- The first token of a phrase. -/
def firstToken : {part : Part} → Phrase Binary64 Operator part → Token
  | _, leaf value => .number value
  | _, group _ => .opening
  | _, single operand => operand.firstToken
  | _, join left _ _ => left.firstToken

theorem head?_tokens {part : Part} (phrase : Phrase Binary64 Operator part) (rest : List Token) :
    (phrase.tokens ++ rest).head? = some phrase.firstToken := by
  induction phrase generalizing rest with
  | leaf value => rfl
  | group inner _ => rfl
  | single operand ih => exact ih rest
  | join left op right ih _ =>
      rw [tokens_join, List.append_assoc]
      exact ih _

/-- Behind a phrase stands no operand. -/
theorem opensOperand_lastToken {part : Part} (phrase : Phrase Binary64 Operator part) :
    Token.opensOperand (some phrase.lastToken) = false := by
  induction phrase with
  | leaf value => rfl
  | group inner _ => exact (by decide : Token.opensOperand (some .closing) = false)
  | single operand ih => exact ih
  | join left op right _ ih => exact ih

theorem lastToken_of_endsInGroup {part : Part}
    (phrase : Phrase SignedNumeral (Option Operator) part) :
    (phrase.endsInGroup = true ∧ phrase.meaning.lastToken = .closing) ∨
      (phrase.endsInGroup = false ∧ phrase.meaning.lastToken.isNumber = true) := by
  induction phrase with
  | leaf numeral => exact Or.inr ⟨rfl, rfl⟩
  | group inner _ => exact Or.inl ⟨rfl, rfl⟩
  | single operand ih => exact ih
  | join left how right _ ih => exact ih

/-- The tokens of two neighbouring operands are a product that is not written, exactly if one of the
operands is a bracket group. -/
theorem multiplies_lastToken {part : Part} (left : Phrase SignedNumeral (Option Operator) part)
    (right : Phrase SignedNumeral (Option Operator) .operand) :
    Token.multiplies left.meaning.lastToken right.meaning.firstToken = true ↔
      left.endsInGroup = true ∨ right.endsInGroup = true := by
  cases right with
  | leaf numeral =>
      show Token.multiplies _ (.number numeral.value) = true ↔ _ ∨ false = true
      rcases lastToken_of_endsInGroup left with ⟨hleft, hlast⟩ | ⟨hleft, hlast⟩
      · simp [hleft, hlast, Token.multiplies, Token.isNumber]
      · have hclosing : left.meaning.lastToken ≠ .closing := by
          intro h
          rw [h] at hlast
          cases hlast
        simp [hleft, hclosing, Token.multiplies, Token.opening]
  | group inner =>
      show Token.multiplies _ .opening = true ↔ _ ∨ true = true
      rcases lastToken_of_endsInGroup left with ⟨-, hlast⟩ | ⟨-, hlast⟩
      · simp [hlast, Token.multiplies]
      · simp [hlast, Token.multiplies]

end Phrase

end Reckoner
