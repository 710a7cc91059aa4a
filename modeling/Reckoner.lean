import Reckoner.Powers
import Reckoner.Rounding
import Reckoner.Binary64.Basic
import Reckoner.Binary64.Arithmetic
import Reckoner.Binary64.Power
import Reckoner.Decimal.Digits
import Reckoner.Decimal.Basic
import Reckoner.Decimal.Shortest
import Reckoner.Decimal.Notation
import Reckoner.Text.Ranges
import Reckoner.Text.Blank
import Reckoner.Text.Printable
import Reckoner.Text.DecimalDigit
import Reckoner.Text.Points
import Reckoner.Text.Hex
import Reckoner.Text.Quoted
import Reckoner.Text.Capital
import Reckoner.Text.Lines
import Reckoner.Operator
import Reckoner.Token
import Reckoner.Fault
import Reckoner.Report
import Reckoner.Token.Literal
import Reckoner.Token.Sign
import Reckoner.Token.Juxtaposition
import Reckoner.Token.Sentence
import Reckoner.Token.Reading
import Reckoner.Trace
import Reckoner.Arithmetic
import Reckoner.Reduction
import Reckoner.Json.Basic
import Reckoner.Json.Writer
import Reckoner.Json.Reader
import Reckoner.Decimal.Reading
import Reckoner.Refusal
import Reckoner.Settings.Key
import Reckoner.Settings.Basic
import Reckoner.Settings.Store
import Reckoner.Settings.LogLevel
import Reckoner.Display
import Reckoner.Answer
import Reckoner.Session
import Reckoner.Conversation
import Reckoner.CommandLine
import Reckoner.Main
import Reckoner.Trace.Record
import Reckoner.Proofs.Precedence.Levels
import Reckoner.Proofs.Precedence.Evaluation
import Reckoner.Proofs.Acceptance
import Reckoner.Proofs.Grammar.Phrase
import Reckoner.Proofs.Grammar.Literal
import Reckoner.Proofs.Grammar.Spelling
import Reckoner.Proofs.Grammar.Reading
import Reckoner.Proofs.Faults
import Reckoner.Proofs.Answer
import Reckoner.Proofs.Binary64.Spacing
import Reckoner.Proofs.Binary64.Nearest
import Reckoner.Proofs.Decimal.Value
import Reckoner.Proofs.Decimal.Shortest
import Reckoner.Proofs.Decimal.Written
import Reckoner.Proofs.Decimal.Numeral
import Reckoner.Proofs.Display.Rounding
import Reckoner.Proofs.Finite
import Reckoner.Proofs.Display.Canonical
import Reckoner.Proofs.Display.Answer
import Reckoner.Proofs.Session.Literal
import Reckoner.Proofs.Session.Continuation
import Reckoner.Proofs.Json.Number
import Reckoner.Proofs.Json.Text
import Reckoner.Proofs.Json.Fields
import Reckoner.Proofs.Json.Value
import Reckoner.Proofs.Settings.Persistence
import Reckoner.Proofs.Reduction.Groups
import Reckoner.Proofs.Reduction.Leftmost
import Reckoner.Proofs.Display.Order
import Reckoner.Proofs.Display.Repetition
import Reckoner.Proofs.Grammar.Viable
import Reckoner.Proofs.Grammar.Alike
import Reckoner.Proofs.Grammar.Blanks
import Reckoner.Proofs.Decimal.Minimal
import Reckoner.Proofs.Display.Whole
import Reckoner.Proofs.Display.Typed
import Reckoner.Proofs.Products
import Reckoner.Proofs.Reduction.Stages
import Reckoner.Proofs.Account
import Reckoner.Proofs.Grammar.Flaws
import Reckoner.Proofs.Reduction.Chain
import Reckoner.Proofs.Json.Readable
import Reckoner.Proofs.Settings.Loading
import Reckoner.Proofs.Settings.Override
import Reckoner.Proofs.Session.Conversation
import Reckoner.Proofs.Grammar.Pattern
import Reckoner.Proofs.Grammar.Longest
