import Reckoner.Binary64.Power
import Reckoner.Trace

/-!
# Arithmetic

What the operators do, and the value of a chain of numbers and operators that is computed strictly
from left to right, without regard to precedence. No operation ever gives a value that is not
finite: it fails instead.
-/

namespace Reckoner

namespace Binary64

/-- The power. Zero has no negative powers; for finite arguments a result beyond the finite range
and a power that is no real number are faults. -/
def power (base exponent : Binary64) : Except Fault Binary64 :=
  if base.isZero ∧ exponent.lt (zero false) then .error (.zeroToNegativePower exponent)
  else if base.isFinite ∧ exponent.isFinite then
    match base.pow exponent with
    | nan => .error (.powerNotReal base exponent)
    | infinite _ => .error (.powerTooLarge base exponent)
    | result => .ok result
  else .ok (base.pow exponent)

/-- The quotient by anything but zero. -/
def quotient (dividend divisor : Binary64) : Except Fault Binary64 :=
  if divisor.isZero then .error (.divisionByZero dividend) else .ok (dividend.div divisor)

end Binary64

/-- The result of an operator. -/
def Operator.apply : Operator → Binary64 → Binary64 → Except Fault Binary64
  | power, x, y => x.power y
  | product, x, y => .ok (x.mul y)
  | quotient, x, y => x.quotient y
  | sum, x, y => .ok (x.add y)
  | difference, x, y => .ok (x.sub y)

namespace Arithmetic

/-- One operation inside `equation`, which is shown if it fails. -/
def operate (equation : List Token) (op : Operator) (x y : Binary64) : Run Fault Binary64 :=
  match op.apply x y with
  | .error fault => do
      Run.report (.failed equation fault)
      Run.fail fault
  | .ok result =>
      if result.isFinite then pure result else Run.fail (.resultTooLarge equation)

/-- The rest of a chain, applied to the value of what stands before it. -/
def continueChain (equation : List Token) (value : Binary64) : List Token → Run Fault Binary64
  | [] => pure value
  | operator :: .number operand :: rest =>
      match operator.operator? with
      | some op => do
          let value ← operate equation op value operand
          continueChain equation value rest
      | none => Run.fail (.invalidEquation equation)
  | _ => Run.fail (.invalidEquation equation)

/-- The value of a chain `x₀ op₁ x₁ op₂ x₂ …` from left to right. A list of even length, or one
that does not begin with a number, is refused at once. -/
def chainValue (equation : List Token) : Run Fault Binary64 :=
  match equation with
  | .number first :: rest =>
      if rest.length % 2 = 0 then continueChain equation first rest
      else Run.fail (.invalidEquation equation)
  | _ => Run.fail (.invalidEquation equation)

end Arithmetic

end Reckoner
