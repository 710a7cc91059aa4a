import Reckoner.Json.Writer

/-!
# Names of settings

A setting is named by any value but a list or an object. Numbers that are equal are the same name,
whether they are integers, reals or truth values; text is the same name as equal text only.

## Main results

* `beq_iff_canonical`: names are the same if their canonical forms are equal, so being the same
  name is an equivalence.
* `text_beq_text`: text is the same name as equal text only.
-/

namespace Reckoner.Settings

inductive Key where
  | null
  | bool (value : Bool)
  | integer (value : Int)
  | real (value : Binary64)
  | text (name : Text.Points)
deriving DecidableEq

namespace Key

/-- The one form in which all equal names agree: whole numbers are integers. -/
def canonical : Key → Key
  | bool value => integer (if value then 1 else 0)
  | real value => if value.isWhole then integer (value.truncate.getD 0) else real value
  | key => key

instance : BEq Key := ⟨fun a b => decide (a.canonical = b.canonical)⟩

/-- The name that a value is. -/
def ofJson? : Json → Option Key
  | .null => some null
  | .bool value => some (bool value)
  | .integer value => some (integer value)
  | .real value => some (real value)
  | .text name => some (text name)
  | .list _ | .object _ => none

/-- The name as a JSON object spells it. -/
def spelling : Key → Text.Points
  | null => "null"
  | bool value => if value then "true" else "false"
  | integer value => Decimal.intText value
  | real value => Json.writeReal value
  | text name => name

/-! ## Laws -/

theorem beq_iff_canonical {a b : Key} : (a == b) = true ↔ a.canonical = b.canonical :=
  decide_eq_true_iff

instance : EquivBEq Key where
  rfl := beq_iff_canonical.2 rfl
  symm h := beq_iff_canonical.2 (beq_iff_canonical.1 h).symm
  trans h h' := beq_iff_canonical.2 ((beq_iff_canonical.1 h).trans (beq_iff_canonical.1 h'))

theorem text_beq_text {a b : Text.Points} : (text a == text b) = true ↔ a = b := by
  simp [beq_iff_canonical, canonical]

end Key

end Reckoner.Settings
