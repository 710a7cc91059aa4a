import Reckoner.Display
import Reckoner.Reduction
import Reckoner.Report
import Reckoner.Settings.Store
import Reckoner.Token.Reading

/-!
# Answering a problem

A problem is answered with the displayed value of the expression or with a report of what is wrong
with it. The settings decide what the question leaves open. An answer can be shown as it is, or a
calculation ends with its value or is interrupted by its report.
-/

namespace Reckoner

/-- A displayed value, or a report of an error. -/
abbrev Answer := Except Report String

/-- What is to be computed. -/
inductive Problem where
  | text (text : String)
  /-- A value that is no text, of this kind. -/
  | notText (kind : String)
deriving DecidableEq, Repr

/-- A problem, with what the caller decides in place of the settings; null leaves it to them. -/
structure Question where
  problem : Problem
  places : Json
  products : Json

namespace Question

/-- A problem that leaves everything to the settings. -/
def ofProblem (problem : Problem) : Question := ⟨problem, .null, .null⟩

/-- What the caller decides, else what the settings say. -/
def choose (given setting : Json) : Json :=
  match given with
  | .null => setting
  | given => given

/-- The value of a text: blanks are dropped everywhere, then the text is read and reduced. The last
event tells whether it was refused as a sentence or has no value. -/
def value (problem : String) (writesProducts : Bool) : Run Fault Binary64 := do
  let reading := Run.ofExcept (Token.read writesProducts (Text.dropBlanks problem.toList))
  let tokens ← reading.reportError (.rejected problem)
  Run.report (.read tokens)
  (Reduction.value tokens).reportError (.unevaluated problem)

/-- The answer under the given settings. The number of places matters only for a value, so it is
looked at only then. -/
def answer (settings : Settings) (question : Question) : Run Refusal Answer :=
  match question.problem with
  | .text problem => do
      let products := choose question.products (settings.get Settings.productsName)
      match ← (value problem products.isTruthy).settle with
      | .error fault => return .error (Report.ofFault fault (some problem))
      | .ok value =>
          let places := choose question.places (settings.get Settings.placesName)
          let places ← Run.ofExcept (Display.placesOf places)
          let text := Display.result places value
          Run.report (.answered problem text)
          return .ok text
  | .notText kind => return .error (Report.ofFault (.notText kind) none)

/-- The answer under the settings in force. -/
def answerFrom (store : Settings.Store) (question : Question) : Run Refusal Answer := do
  let settings ← Run.ofExcept store.load
  question.answer settings

end Question

/-! ## Showing an answer -/

/-- An answer, and what is shown for it. -/
structure Shown where
  answer : Answer
  display : Json

namespace Shown

/-- Whether there is a value. -/
def isOk (shown : Shown) : Bool := shown.answer.isOk

/-- The displayed value, if there is one. -/
def value? (shown : Shown) : Option String := shown.answer.toOption

/-- The report, if there is one. -/
def report? (shown : Shown) : Option Report :=
  match shown.answer with
  | .ok _ => none
  | .error report => some report

/-- What is shown for an answer: a value itself, the message of the settings for a division by
zero, and the text of its code for another error. -/
def ofAnswer (settings : Settings) (answer : Answer) : Shown :=
  ⟨answer, match answer with
    | .ok text => .text text
    | .error report =>
        if report.kind = .divideByZero then settings.get Settings.zeroDivisionName
        else .text report.displayText⟩

/-- The answer to a problem under the settings in force, as it is shown. -/
def ofProblem (store : Settings.Store) (problem : Problem) : Except Refusal Shown := do
  let answer ← ((Question.ofProblem problem).answerFrom store).outcome
  let settings ← store.load
  return ofAnswer settings answer

end Shown

/-! ## Calculating -/

/-- Why a calculation ends without a value: it was refused, or there is something wrong with the
problem. -/
inductive Interruption where
  | refused (refusal : Refusal)
  | reported (report : Report)
deriving DecidableEq, Repr

/-- The displayed value of a problem under the settings in force. -/
def calculate (store : Settings.Store) (problem : Problem) : Except Interruption String :=
  match ((Question.ofProblem problem).answerFrom store).outcome with
  | .ok (.ok text) => .ok text
  | .ok (.error report) => .error (.reported report)
  | .error refusal => .error (.refused refusal)

end Reckoner
