import Reckoner.Trace

/-!
# Log records

How the events of an evaluation appear in a log: with a level, the part of the program that reports
them, and a message. An evaluation that ends badly is told at the level for information; its steps
are for debugging.
-/

namespace Reckoner

/-- An entry of the log. -/
structure Record where
  level : String
  source : String
  message : String
deriving DecidableEq, Repr

namespace Record

/-- A record of the part that reads texts. -/
def reading (message : String) : Record := ⟨"DEBUG", "Calculator.Tokenizer", message⟩

/-- A record of the part that applies operators. -/
def arithmetic (message : String) : Record := ⟨"DEBUG", "Calculator.ArithmeticEngine", message⟩

/-- A record of the part that reduces expressions. -/
def reduction (level message : String) : Record := ⟨level, "Calculator.MathEngine", message⟩

/-- The record of an event. -/
def ofEvent : Event → Record
  | .read tokens => reading ("Tokens: " ++ Token.shownList tokens)
  | .applied equation result =>
      reduction "DEBUG"
        ("collapse " ++ Token.shownEquation equation ++ " -> " ++ result.shortestText)
  | .failed equation fault =>
      arithmetic ("arithmetic(" ++ Token.shownEquation equation ++ ") failed: " ++ fault.message)
  | .grouped interior value =>
      reduction "DEBUG"
        ("bracket " ++ Token.shownEquation interior ++ " -> " ++ value.shortestText)
  | .rejected problem fault =>
      reduction "INFO" ("Rejected " ++ Text.quoted problem ++ ": " ++ fault.message)
  | .unevaluated problem fault =>
      reduction "INFO" ("Could not evaluate " ++ Text.quoted problem ++ ": " ++ fault.message)
  | .answered problem answer => reduction "DEBUG" (Text.quoted problem ++ " = " ++ answer)

end Record

end Reckoner
