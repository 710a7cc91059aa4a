import Reckoner.Fault

/-!
# Error reports

What is told about an error: its kind, its message, its code, and the equation it arose in. A
report can be made of a fault, and also of a code and a message of the caller's own.
-/

namespace Reckoner

namespace Report

/-- The code of a report. Only a code that is text has an entry in the table of texts. -/
inductive Code where
  | text (digits : String)
  | number (value : Int)
  | absent
deriving DecidableEq, Repr

/-- The code as it is written after the word "Error". -/
def Code.plain : Code → String
  | text digits => digits
  | number value => Decimal.intText value
  | absent => "None"

/-- The code as it is written inside a summary. -/
def Code.shown : Code → String
  | text digits => Text.quoted digits
  | code => code.plain

end Report

structure Report where
  kind : Fault.Kind
  message : String
  code : Report.Code
  equation : Option String
deriving DecidableEq, Repr

namespace Report

/-- The report of a fault. -/
def ofFault (fault : Fault) (equation : Option String) : Report :=
  ⟨fault.kind, fault.message, .text fault.code, equation⟩

/-- The code of a report that is made without one. -/
def defaultCode : Fault.Kind → Code
  | .divideByZero => .text "3003"
  | _ => .text "9999"

/-- The message of a report that is made without one; only a division by zero explains itself. -/
def defaultMessage? : Fault.Kind → Option String
  | .divideByZero => some "Division by zero"
  | _ => none

/-- A report of the caller's own: without a code or a message it has those of its kind, and there is
no report if its kind has no message. -/
def make? (kind : Fault.Kind) (message? : Option String) (code? : Option Code)
    (equation : Option String) : Option Report :=
  (message?.or (defaultMessage? kind)).map fun message =>
    ⟨kind, message, code?.getD (defaultCode kind), equation⟩

/-- The text that stands for a code. -/
def tableText? (code : String) : Option String :=
  [("3003", "Division by Zero"),
   ("3008", "More than one '.' in one number."),
   ("3009", "Missing ')'. "),
   ("3010", "Missing '('. "),
   ("3011", "Unexpected Token: "),
   ("3012", "Invalid equation:  "),
   ("3026", "Number too big."),
   ("3027", "Missing Number."),
   ("3028", "Missing Number before operator."),
   ("3029", "Missing Number after operator."),
   ("3031", "Empty expression."),
   ("3032", "Invalid character: "),
   ("3033", "Result is not a real number."),
   ("9999", "Unexpected Error: ")].lookup code

/-- The area of the program that the first character of the code names. -/
def area (report : Report) : String :=
  match report.code.plain.toList with
  | '3' :: _ => "Calculator Error"
  | '9' :: _ => "Runtime Error"
  | _ => "Unknown"

/-- The text that is displayed in place of a result. -/
def displayText (report : Report) : String :=
  let text? := match report.code with
    | .text digits => tableText? digits
    | _ => none
  "Error " ++ report.code.plain ++ ": " ++ text?.getD "Unknown error"

/-- The kind with the code and the message. -/
def summary (report : Report) : String :=
  report.kind.name ++ "(code=" ++ report.code.shown ++ ", message="
    ++ Text.quoted report.message ++ ")"

/-- The names of all kinds that the report belongs to, in alphabetical order. -/
def kindNames (report : Report) : List String :=
  (Fault.Kind.all.filter report.kind.isA).map Fault.Kind.name

end Report

end Reckoner
