import Reckoner.Refusal
import Reckoner.Token

/-!
# Number literals

A literal is a row of digits that may hold one point, with at least one digit after the point:
`12`, `.5`, `1.25`, but neither `1.` nor `.`. The longest literal at the start of a text is cut
off in one step, by the digits before the point and the digits after it.

## Main results

* `append_of_split?`: cutting loses nothing.
* `ne_nil_of_split?`: a literal is not empty.
-/

namespace Reckoner.Literal

/-- The longest literal at the start of a text, and what follows it. -/
def split? (cs : List Char) : Option (List Char × List Char) :=
  let whole := cs.takeWhile Char.isDigit
  let rest := cs.dropWhile Char.isDigit
  let fraction := (rest.drop 1).takeWhile Char.isDigit
  if rest.head? = some '.' ∧ fraction ≠ [] then
    some (whole ++ '.' :: fraction, (rest.drop 1).dropWhile Char.isDigit)
  else if whole ≠ [] then some (whole, rest)
  else none

/-- The characters of a text from a position on. A position before the text is its beginning. -/
def charsFrom (text : String) (start : Int) : List Char := text.toList.drop start.toNat

/-- The longest literal that starts at a position of a text. A position has to fit into 64 bits with
its sign, so it is below two to the 63, however long the text is. -/
def at? (text : String) (start : Int) : Except Refusal (Option String) :=
  if -9223372036854775808 ≤ start ∧ start < 9223372036854775808 then
    .ok ((split? (charsFrom text start)).map fun parts => String.ofList parts.1)
  else .error .positionOutOfRange

/-- Whether the whole text is one literal. -/
def isLiteral (cs : List Char) : Bool :=
  match split? cs with
  | some (_, rest) => rest.isEmpty
  | none => false

/-- The decimal number that a literal stands for. -/
def decimal (literal : List Char) : Decimal :=
  let whole := literal.takeWhile Char.isDigit
  let fraction := (literal.dropWhile Char.isDigit).drop 1
  ⟨Decimal.digitsValue (whole ++ fraction), -fraction.length⟩

/-- The binary64 number nearest to a literal. -/
def value (literal : List Char) : Binary64 := (decimal literal).toBinary64 false

/-! ## Laws -/

/-- Cutting a literal off loses nothing. -/
theorem append_of_split? {cs literal rest : List Char} (h : split? cs = some (literal, rest)) :
    literal ++ rest = cs := by
  have hcut := List.takeWhile_append_dropWhile (p := Char.isDigit) (l := cs)
  simp only [split?] at h
  split at h
  · next hpoint =>
    simp only [Option.some.injEq, Prod.mk.injEq] at h
    obtain ⟨rfl, rfl⟩ := h
    have hafter := List.takeWhile_append_dropWhile (p := Char.isDigit)
      (l := (cs.dropWhile Char.isDigit).drop 1)
    rcases hr : cs.dropWhile Char.isDigit with _ | ⟨c, after⟩
    · simp [hr] at hpoint
    · simp only [hr, List.head?_cons, Option.some.injEq, List.drop_succ_cons, List.drop_zero]
        at hpoint hafter ⊢
      rw [List.append_assoc, List.cons_append, hafter, ← hpoint.1, ← hr, hcut]
  · split at h
    · simp only [Option.some.injEq, Prod.mk.injEq] at h
      obtain ⟨rfl, rfl⟩ := h
      exact hcut
    · cases h

/-- A literal is not empty. -/
theorem ne_nil_of_split? {cs literal rest : List Char} (h : split? cs = some (literal, rest)) :
    literal ≠ [] := by
  simp only [split?] at h
  split at h
  · simp only [Option.some.injEq, Prod.mk.injEq] at h
    obtain ⟨rfl, rfl⟩ := h
    simp
  · split at h
    · next hwhole =>
      simp only [Option.some.injEq, Prod.mk.injEq] at h
      obtain ⟨rfl, rfl⟩ := h
      exact hwhole
    · cases h

/-- What follows a literal is shorter than the text. -/
theorem length_lt_of_split? {cs literal rest : List Char} (h : split? cs = some (literal, rest)) :
    rest.length < cs.length := by
  have hlen := congrArg List.length (append_of_split? h)
  have hpos := List.length_pos_iff.2 (ne_nil_of_split? h)
  rw [List.length_append] at hlen
  omega

end Reckoner.Literal
