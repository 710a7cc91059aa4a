/-!
# The five binary operators

Operators and their precedence. Operators of one level associate to the left.
-/

namespace Reckoner

inductive Operator where
  | power
  | product
  | quotient
  | sum
  | difference
deriving DecidableEq, Repr

namespace Operator

/-- How the operator is written. -/
def text : Operator → String
  | power => "^"
  | product => "*"
  | quotient => "/"
  | sum => "+"
  | difference => "-"

/-- The operator that is written like this. -/
def ofText? (s : String) : Option Operator :=
  if s = "^" then some power
  else if s = "*" then some product
  else if s = "/" then some quotient
  else if s = "+" then some sum
  else if s = "-" then some difference
  else none

/-- The levels of precedence, the tightest first, by the texts of their operators. -/
def levels : List (List String) := [["^"], ["*", "/"], ["+", "-"]]

theorem ofText?_text (op : Operator) : ofText? op.text = some op := by
  cases op <;> decide

theorem ofText?_eq_some_iff {s : String} {op : Operator} : ofText? s = some op ↔ s = op.text := by
  constructor
  · intro h
    unfold ofText? at h
    repeat' split at h
    all_goals first | (cases h; assumption) | cases h
  · rintro rfl
    exact ofText?_text op

end Operator

end Reckoner
