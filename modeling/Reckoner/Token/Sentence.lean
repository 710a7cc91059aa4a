import Reckoner.Fault

/-!
# Sentences

A list of tokens is a sentence if it is a complete infix expression. It is checked from left to
right, and what has been read matters only through the number of open groups and the last token.
Symbols that are neither brackets nor operators take the place of operators here.
-/

namespace Reckoner

/-- What has been read of a sentence. -/
structure Sentence where
  /-- The number of open groups. -/
  depth : Nat
  /-- The last token. -/
  previous : Option Token
deriving DecidableEq

namespace Sentence

/-- Nothing read. -/
def start : Sentence := ⟨0, none⟩

/-- Whether an operand is due after this token: everywhere but after a number or a group. -/
def operandDue : Option Token → Bool
  | none => true
  | some (.number _) => false
  | some (.symbol text) => text != ")"

/-- Reading an opening bracket. -/
def openGroup (read : Sentence) : Except Fault Sentence :=
  match read.previous with
  | some previous =>
      if operandDue (some previous) then .ok ⟨read.depth + 1, some .opening⟩
      else .error (.unexpectedGroup previous)
  | none => .ok ⟨read.depth + 1, some .opening⟩

/-- Reading a closing bracket. -/
def closeGroup (read : Sentence) : Except Fault Sentence :=
  match read.depth, read.previous with
  | 0, _ => .error .missingOpening
  | _, none => .error .missingOpening
  | depth + 1, some (.number _) => .ok ⟨depth, some .closing⟩
  | depth + 1, some (.symbol text) =>
      if text = "(" then .error .emptyGroup
      else if text = ")" then .ok ⟨depth, some .closing⟩
      else .error (.missingRight text)

/-- Reading any other symbol, which stands for an operator. -/
def readOperator (read : Sentence) (text : String) : Except Fault Sentence :=
  if operandDue read.previous then
    if (Token.symbol text).isSign then .error (.looseSign text)
    else match read.previous with
      | some (.symbol previous) =>
          if previous = "(" then .error (.missingLeft text)
          else .error (.unexpectedOperator text previous)
      | _ => .error (.missingLeft text)
  else .ok ⟨read.depth, some (.symbol text)⟩

/-- Reading one token. -/
def read (sentence : Sentence) : Token → Except Fault Sentence
  | .number value =>
      if operandDue sentence.previous then .ok ⟨sentence.depth, some (.number value)⟩
      else .error (.unexpectedNumber value)
  | .symbol text =>
      if text = "(" then sentence.openGroup
      else if text = ")" then sentence.closeGroup
      else sentence.readOperator text

/-- The end of the tokens: the last one must be no operator, and no group may be open. -/
def finish (sentence : Sentence) : Except Fault Unit :=
  match sentence.previous with
  | some (.symbol text) =>
      if (Operator.ofText? text).isSome then .error (.missingRight text)
      else if sentence.depth = 0 then .ok () else .error .missingClosing
  | _ => if sentence.depth = 0 then .ok () else .error .missingClosing

/-- Refuses every list of tokens that is not a sentence, at the first token that no sentence has
in its place. -/
def check (tokens : List Token) : Except Fault Unit :=
  if tokens.isEmpty then .error .emptyExpression
  else tokens.foldlM read start >>= finish

/-! ## Laws -/

/-- These tokens complete what has been read. -/
def Accepts (sentence : Sentence) (tokens : List Token) : Prop :=
  (tokens.foldlM read sentence >>= finish) = .ok ()

theorem accepts_nil {sentence : Sentence} : sentence.Accepts [] ↔ sentence.finish = .ok () :=
  Iff.rfl

theorem accepts_cons {sentence : Sentence} {token : Token} {tokens : List Token} :
    sentence.Accepts (token :: tokens) ↔
      ∃ next, sentence.read token = .ok next ∧ next.Accepts tokens := by
  rw [Accepts, List.foldlM_cons]
  cases hread : sentence.read token with
  | error fault => simp [bind, Except.bind]
  | ok next => simp [Accepts, bind, Except.bind]

theorem check_eq_ok {tokens : List Token} :
    check tokens = .ok () ↔ tokens ≠ [] ∧ start.Accepts tokens := by
  cases tokens <;> simp [check, Accepts]

/-- A number is read where an operand is due. -/
theorem read_number_eq_ok {depth : Nat} {previous : Option Token} {value : Binary64}
    {next : Sentence} :
    read ⟨depth, previous⟩ (.number value) = .ok next ↔
      operandDue previous = true ∧ next = ⟨depth, some (.number value)⟩ := by
  cases h : operandDue previous <;> simp [read, h, eq_comm]

/-- A group is opened where an operand is due. -/
theorem read_opening_eq_ok {depth : Nat} {previous : Option Token} {next : Sentence} :
    read ⟨depth, previous⟩ .opening = .ok next ↔
      operandDue previous = true ∧ next = ⟨depth + 1, some .opening⟩ := by
  cases previous with
  | none => simp [read, Token.opening, openGroup, operandDue, eq_comm]
  | some token =>
      cases h : operandDue (some token) <;> simp [read, Token.opening, openGroup, h, eq_comm]

/-- An open group is closed where no operand is due. -/
theorem read_closing_eq_ok {depth : Nat} {previous : Option Token} {next : Sentence} :
    read ⟨depth, previous⟩ .closing = .ok next ↔
      operandDue previous = false ∧ ∃ outer, depth = outer + 1 ∧ next = ⟨outer, some .closing⟩ := by
  have hread : read ⟨depth, previous⟩ .closing = closeGroup ⟨depth, previous⟩ := rfl
  rw [hread]
  cases depth with
  | zero => simp [closeGroup]
  | succ depth =>
      match previous with
      | none => simp [closeGroup, operandDue]
      | some (.number value) => simp [closeGroup, operandDue, eq_comm]
      | some (.symbol text) =>
          by_cases hleft : text = "("
          · subst hleft
            simp [closeGroup, operandDue]
          · by_cases hright : text = ")"
            · subst hright
              simp [closeGroup, operandDue, eq_comm]
            · simp [closeGroup, operandDue, hleft, hright]

/-- Any other symbol is read where no operand is due. -/
theorem read_symbol_eq_ok {depth : Nat} {previous : Option Token} {text : String} {next : Sentence}
    (h : (Token.symbol text).isBracket = false) :
    read ⟨depth, previous⟩ (.symbol text) = .ok next ↔
      operandDue previous = false ∧ next = ⟨depth, some (.symbol text)⟩ := by
  simp only [Token.isBracket, Token.opening, Token.closing, Bool.or_eq_false_iff,
    beq_eq_false_iff_ne, ne_eq, Token.symbol.injEq] at h
  simp only [read, h.1, h.2, if_false, readOperator]
  cases hdue : operandDue previous with
  | false => simp [eq_comm]
  | true =>
      simp only [if_true]
      split
      · simp
      · split
        · split <;> simp
        · simp

theorem operandDue_symbol {text : String} (h : (Token.symbol text).isBracket = false) :
    operandDue (some (.symbol text)) = true := by
  simp only [Token.isBracket, Token.closing, Bool.or_eq_false_iff, beq_eq_false_iff_ne, ne_eq,
    Token.symbol.injEq] at h
  simp [operandDue, h.2]

/-- Where no operand is due, nothing but an open group stands against the end. -/
theorem finish_eq_ok {depth : Nat} {previous : Option Token} (h : operandDue previous = false) :
    finish ⟨depth, previous⟩ = .ok () ↔ depth = 0 := by
  match previous, h with
  | some (.number value), _ => simp [finish]
  | some (.symbol text), h =>
      obtain rfl : text = ")" := by simpa [operandDue] using h
      have hnone : Operator.ofText? ")" = none := by decide
      simp [finish, hnone]

theorem finish_opening (depth : Nat) :
    finish ⟨depth + 1, some .opening⟩ = .error .missingClosing := by
  have hnone : Operator.ofText? "(" = none := by decide
  simp [finish, Token.opening, hnone]

theorem finish_ofOperator (depth : Nat) (op : Operator) :
    finish ⟨depth, some (.ofOperator op)⟩ = .error (.missingRight op.text) := by
  simp [finish, Token.ofOperator, Operator.ofText?_text]

end Sentence

end Reckoner
