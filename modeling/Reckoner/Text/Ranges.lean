/-!
# Sets of code points

A set of code points is a list of closed ranges in ascending order, so that a search can stop at
the first range beyond the code point.
-/

namespace Reckoner.Text

/-- Whether a code point lies in one of the ranges, which are in ascending order. -/
def inRanges (n : Nat) : List (Nat × Nat) → Bool
  | [] => false
  | (first, last) :: rest => if n < first then false else n ≤ last || inRanges n rest

end Reckoner.Text
