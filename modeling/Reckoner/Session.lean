import Reckoner.Answer

/-!
# Sessions

A session remembers the last result. A line that begins with an operator continues from it; every
other line is a problem of its own.
-/

namespace Reckoner

/-- What a session remembers: whether a line was answered, and the displayed value if the last
answer was one. -/
inductive Session where
  | fresh
  | answered (last? : Option String)
deriving DecidableEq, Repr

namespace Session

/-- Whether a line was answered. -/
def isDelivered : Session → Bool
  | fresh => false
  | answered _ => true

/-- The last displayed value. -/
def last? : Session → Option String
  | fresh => none
  | answered last? => last?

/-- The text without the given character at its end. -/
def dropTrailing (c : Char) (cs : List Char) : List Char :=
  (cs.reverse.dropWhile (· == c)).reverse

/-- A displayed value in a form that an expression can begin with: a literal as it is, a number with
an exponent in plain digits. -/
def literalOf (result : String) : Except Refusal String :=
  if Literal.isLiteral (result.toList.dropWhile (· == '-')) then .ok result
  else match Decimal.readBinary64? result with
    | some value =>
        .ok (String.ofList (dropTrailing '.' (dropTrailing '0' value.fixedText.toList)))
    | none => .error .resultNotNumber

/-- Whether a line continues from the last result. -/
def continues (line : List Char) : Bool :=
  match line with
  | c :: _ => CharKind.ofChar c == .operator
  | [] => false

/-- The problem that a line poses. -/
def problemOf (session : Session) (line : String) : Except Refusal String :=
  let problem := Text.trim line
  match session.last? with
  | some last =>
      if continues problem.toList then (literalOf last).map (· ++ problem) else .ok problem
  | none => .ok problem

/-- A line that was answered. -/
structure Turn where
  problem : String
  shown : Shown
  /-- The session afterwards. -/
  session : Session

/-- Answers a line. -/
def take (store : Settings.Store) (session : Session) (line : String) : Except Refusal Turn := do
  let problem ← session.problemOf line
  let shown ← Shown.ofProblem store (.text problem)
  return ⟨problem, shown, .answered shown.value?⟩

/-- Answers lines one after the other. -/
def takeAll (store : Settings.Store) (session : Session) :
    List String → Except Refusal (List Turn)
  | [] => .ok []
  | line :: lines => do
      let turn ← session.take store line
      let turns ← takeAll store turn.session lines
      return turn :: turns

end Session

end Reckoner
