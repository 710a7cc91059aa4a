import Reckoner.Token

/-!
# What can be wrong with an expression

A fault is a cause, with the data its message shows. Its kind, its code and its message are
functions of the cause.
-/

namespace Reckoner

/-- Why an expression has no value. -/
inductive Fault where
  -- Faults of the text
  /-- A point that no digit follows, where no number has begun. -/
  | lonePoint (position : Nat)
  /-- A number directly followed by a further point. -/
  | secondPoint (literal : String)
  /-- A number beyond the finite range. -/
  | literalTooBig (literal : String)
  /-- A character that belongs to no token. -/
  | invalidCharacter (c : Char)
  -- Faults of the order of tokens
  | emptyExpression
  /-- A number where an operator is due. -/
  | unexpectedNumber (value : Binary64)
  /-- A bracket group where an operator is due. -/
  | unexpectedGroup (previous : Token)
  | missingOpening
  | emptyGroup
  /-- An operator with no number after it. -/
  | missingRight (operator : String)
  /-- A sign with no number after it. -/
  | looseSign (sign : String)
  /-- An operator with no number before it. -/
  | missingLeft (operator : String)
  /-- An operator directly after another one. -/
  | unexpectedOperator (operator previous : String)
  | missingClosing
  -- Faults of evaluation
  /-- Tokens that are no alternation of numbers and operators. -/
  | invalidEquation (tokens : List Token)
  /-- An operator at the edge of an equation. -/
  | missingOperand (operator : String)
  | zeroToNegativePower (exponent : Binary64)
  | powerTooLarge (base exponent : Binary64)
  | powerNotReal (base exponent : Binary64)
  | divisionByZero (dividend : Binary64)
  /-- An operation whose result is not finite. -/
  | resultTooLarge (tokens : List Token)
  -- Faults of the problem
  /-- A problem that is no text; `found` names what it is. -/
  | notText (found : String)
deriving DecidableEq

namespace Fault

/-- The kinds of faults. A division by zero is also a fault of calculation, and every fault is a
general one. -/
inductive Kind where
  | general
  | malformed
  | calculation
  | divideByZero
deriving DecidableEq, Repr

namespace Kind

/-- The name of a kind. -/
def name : Kind → String
  | general => "MathError"
  | malformed => "MalformedExpression"
  | calculation => "CalculationError"
  | divideByZero => "DivideByZero"

/-- All kinds, by name in alphabetical order. -/
def all : List Kind := [calculation, divideByZero, malformed, general]

/-- The kind with a name. -/
def ofName? (name : String) : Option Kind := all.find? fun kind => kind.name == name

/-- Whether a fault of the first kind is also one of the second. -/
def isA : Kind → Kind → Bool
  | _, general => true
  | divideByZero, calculation => true
  | kind, other => kind == other

end Kind

/-- The kind of a fault. -/
def kind : Fault → Kind
  | zeroToNegativePower _ | divisionByZero _ => .divideByZero
  | literalTooBig _ | powerTooLarge .. | powerNotReal .. | resultTooLarge _ => .calculation
  | _ => .malformed

/-- The code of a fault: the first digit names the area, the rest the fault. -/
def code : Fault → String
  | zeroToNegativePower _ | divisionByZero _ => "3003"
  | lonePoint _ | secondPoint _ => "3008"
  | missingClosing => "3009"
  | missingOpening => "3010"
  | unexpectedNumber _ | unexpectedGroup _ | looseSign _ | unexpectedOperator .. => "3011"
  | invalidEquation _ | missingOperand _ | notText _ => "3012"
  | literalTooBig _ | powerTooLarge .. | resultTooLarge _ => "3026"
  | emptyGroup => "3027"
  | missingLeft _ => "3028"
  | missingRight _ => "3029"
  | emptyExpression => "3031"
  | invalidCharacter _ => "3032"
  | powerNotReal .. => "3033"

/-- The message of a fault. -/
def message : Fault → String
  | lonePoint position => "'.' without digits at position " ++ Decimal.natText position ++ "."
  | secondPoint literal => s!"More than one '.' in number starting with {literal}"
  | literalTooBig literal =>
      "Number too big: " ++ String.ofList (literal.toList.take 20) ++ "..."
  | invalidCharacter c => "Invalid character: '" ++ String.singleton c ++ "'"
  | emptyExpression => "Empty expression."
  | unexpectedNumber value => "Unexpected Token: " ++ value.shortestText
  | unexpectedGroup previous => "Unexpected Token: '(' after " ++ previous.shown
  | missingOpening => "Missing '('."
  | emptyGroup => "Missing Number between '(' and ')'."
  | missingRight operator => s!"Missing Number after '{operator}'."
  | looseSign sign => s!"Sign '{sign}' must be followed by a number."
  | missingLeft operator => s!"Missing Number before '{operator}'."
  | unexpectedOperator operator previous => s!"Unexpected Token: '{operator}' after '{previous}'"
  | missingClosing => "Missing ')'."
  | invalidEquation tokens => "Invalid equation: " ++ Token.shownEquation tokens
  | missingOperand operator => s!"Operator '{operator}' is missing an operand."
  | zeroToNegativePower exponent =>
      "0 cannot be raised to the negative power " ++ exponent.significantText ++ "."
  | powerTooLarge base exponent =>
      base.significantText ++ "^" ++ exponent.significantText ++ " is too large."
  | powerNotReal base exponent =>
      base.significantText ++ "^" ++ exponent.significantText ++ " has no real result."
  | divisionByZero dividend => "Division of " ++ dividend.significantText ++ " by zero."
  | resultTooLarge tokens => "Result of " ++ Token.shownEquation tokens ++ " is too large."
  | notText found => s!"Expected text, got {found}."

end Fault

end Reckoner
