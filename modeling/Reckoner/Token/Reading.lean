import Reckoner.Token.Juxtaposition
import Reckoner.Token.Literal
import Reckoner.Token.Sentence
import Reckoner.Token.Sign

/-!
# Reading tokens from a text

The text is cut into unsigned numbers and symbols from left to right; the first fault of the text
ends the reading. Then signs join their numbers, unwritten products are written out if that is
asked for, and the result must be a sentence.
-/

namespace Reckoner.Token

/-- The unsigned numbers and the symbols of a text; `position` counts what was read before. -/
def cut (position : Nat) (cs : List Char) : Except Fault (List Token) :=
  match cs with
  | [] => .ok []
  | c :: rest =>
      have : rest.length < (c :: rest).length := Nat.lt_succ_self _
      match CharKind.ofChar c with
      | .digit | .decimalPoint =>
          match h : Literal.split? (c :: rest) with
          | none => .error (.lonePoint position)
          | some (literal, after) =>
              have : after.length < (c :: rest).length := Literal.length_lt_of_split? h
              if after.head? = some '.' then .error (.secondPoint (String.ofList literal))
              else if (Literal.value literal).isFinite then
                (cut (position + literal.length) after).map (number (Literal.value literal) :: ·)
              else .error (.literalTooBig (String.ofList literal))
      | .operator | .bracket => (cut (position + 1) rest).map (symbol (String.singleton c) :: ·)
      | .blank => cut (position + 1) rest
      | .other => .error (.invalidCharacter c)
termination_by cs.length
decreasing_by all_goals assumption

/-- The sentence that a text stands for. -/
def read (writesProducts : Bool) (cs : List Char) : Except Fault (List Token) := do
  let unsigned ← cut 0 cs
  let signed := foldSigns none unsigned
  let tokens := if writesProducts then insertProducts signed else signed
  Sentence.check tokens
  return tokens

end Reckoner.Token
