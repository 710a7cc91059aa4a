import Reckoner.Decimal.Notation
import Reckoner.Operator
import Reckoner.Text.Blank
import Reckoner.Text.Quoted

/-!
# Tokens

An expression is a list of tokens: numbers, whose sign is part of their value, and symbols. The
symbols of a well-formed expression are the operators and the two brackets; a list of tokens in
general may hold any text as a symbol, and every stage says what it makes of one.
-/

namespace Reckoner

inductive Token where
  | number (value : Binary64)
  | symbol (text : String)
deriving DecidableEq

namespace Token

/-- The token that opens a bracket group. -/
def opening : Token := symbol "("

/-- The token that closes a bracket group. -/
def closing : Token := symbol ")"

/-- The token of an operator. -/
def ofOperator (op : Operator) : Token := symbol op.text

def isNumber : Token → Bool
  | number _ => true
  | symbol _ => false

/-- The operator that a token stands for. -/
def operator? : Token → Option Operator
  | number _ => none
  | symbol text => Operator.ofText? text

def isOperator (token : Token) : Bool := token.operator?.isSome

/-- An operator that can also be the sign of a number. -/
def isSign (token : Token) : Bool := token == symbol "+" || token == symbol "-"

def isBracket (token : Token) : Bool := token == opening || token == closing

/-- Whether a token is one of the given symbols. -/
def isAmong (symbols : List String) : Token → Bool
  | number _ => false
  | symbol text => symbols.contains text

theorem isBracket_ofOperator (op : Operator) : (ofOperator op).isBracket = false := by
  cases op <;> decide

theorem isBracket_eq_false_iff {token : Token} :
    token.isBracket = false ↔ token ≠ opening ∧ token ≠ closing := by
  simp [isBracket]

/-- A token is one of the two brackets, or no bracket. -/
theorem bracket_cases (token : Token) :
    token = opening ∨ token = closing ∨ token.isBracket = false := by
  by_cases hopening : token = opening
  · exact Or.inl hopening
  by_cases hclosing : token = closing
  · exact Or.inr (Or.inl hclosing)
  · exact Or.inr (Or.inr (isBracket_eq_false_iff.2 ⟨hopening, hclosing⟩))

/-! ## Tokens in messages -/

/-- A token in a message: numbers in the shortest notation, symbols in quotes. -/
def shown : Token → String
  | number value => value.shortestText
  | symbol text => Text.quoted text

/-- A list of tokens in a message, between square brackets. -/
def shownList (tokens : List Token) : String :=
  "[" ++ String.intercalate ", " (tokens.map shown) ++ "]"

/-- An equation in a message, between round brackets; a single token is followed by a comma. -/
def shownEquation : List Token → String
  | [token] => "(" ++ token.shown ++ ",)"
  | tokens => "(" ++ String.intercalate ", " (tokens.map shown) ++ ")"

end Token

/-! ## Kinds of characters -/

/-- What a character of an expression can be. -/
inductive CharKind where
  | operator
  | bracket
  | digit
  | decimalPoint
  | blank
  | other
deriving DecidableEq, Repr

namespace CharKind

def ofChar (c : Char) : CharKind :=
  if ['^', '*', '/', '+', '-'].contains c then operator
  else if ['(', ')'].contains c then bracket
  else if c.isDigit then digit
  else if c = '.' then decimalPoint
  else if Text.isBlank c then blank
  else other

/-- Whether the characters are a piece of the row of digits. -/
def isDigitRow (cs : List Char) : Bool :=
  (List.range 11).any fun start => cs.isPrefixOf ("0123456789".toList.drop start)

/-- The kind of a text. A text of one character is of the kind of its character; another is a digit
if it is a piece of the row of digits, as the empty text is, and blank if all of it is. -/
def ofText (s : String) : CharKind :=
  match s.toList with
  | [c] => ofChar c
  | cs =>
      if isDigitRow cs then digit
      else if cs.all Text.isBlank then blank
      else other

/-- The name of a kind. -/
def name : CharKind → String
  | operator => "operator"
  | bracket => "bracket"
  | digit => "digit"
  | decimalPoint => "decimal_point"
  | blank => "whitespace"
  | other => "other"

end CharKind

end Reckoner
