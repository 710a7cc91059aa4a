import Reckoner.Arithmetic

/-!
# Reducing an expression to its value

Bracket groups are replaced by their values, innermost first: the tokens are read from left to
right with a stack of open groups, so that a closing bracket always ends a group without brackets.
A list without brackets is reduced level by level, the tightest operators first, each level in one
pass from left to right.

## Main results

* `closeGroups_opening`, `closeGroups_closing`, `closeGroups_other`: one token after the other.
* `resolveGroups_of_flat`, `value_of_flat`: tokens without brackets have no groups to resolve.
-/

namespace Reckoner.Reduction

/-- One pass that applies the operators with the given texts. `passed` holds the tokens to the left
of the pass, the nearest one first: an operator meets the value that is already reduced on its left
and the operand on its right. -/
def sweep (symbols : List String) (passed : List Token) : List Token → Run Fault (List Token)
  | [] => pure passed.reverse
  | .symbol text :: rest =>
      if symbols.contains text then
        match passed, rest with
        | left :: passed, right :: rest => do
            let equation := [left, .symbol text, right]
            let result ← Arithmetic.chainValue equation
            Run.report (.applied equation result)
            sweep symbols (.number result :: passed) rest
        | _, _ => Run.fail (.missingOperand text)
      else sweep symbols (.symbol text :: passed) rest
  | .number value :: rest => sweep symbols (.number value :: passed) rest

/-- The tokens with the operators of one level applied. -/
def reduceLevel (symbols : List String) (tokens : List Token) : Run Fault (List Token) :=
  sweep symbols [] tokens

/-- The value of tokens without brackets. -/
def flatValue (tokens : List Token) : Run Fault Binary64 := do
  let reduced ← Operator.levels.foldlM (fun tokens symbols => reduceLevel symbols tokens) tokens
  match reduced with
  | [.number value] => pure value
  | _ => Run.fail (.invalidEquation reduced)

/-- Replaces every group by its value. `current` holds the tokens of the innermost open group, the
last one first, and `enclosing` those of the groups around it. -/
def closeGroups (groupValue : List Token → Run Fault Binary64) (enclosing : List (List Token))
    (current : List Token) : List Token → Run Fault (List Token)
  | [] => if enclosing.isEmpty then pure current.reverse else Run.fail .missingClosing
  | token :: rest =>
      if token = .opening then closeGroups groupValue (current :: enclosing) [] rest
      else if token = .closing then
        match enclosing with
        | [] => Run.fail .missingOpening
        | outer :: enclosing => do
            let value ← groupValue current.reverse
            Run.report (.grouped current.reverse value)
            closeGroups groupValue enclosing (.number value :: outer) rest
      else closeGroups groupValue enclosing (token :: current) rest

/-- The tokens with every bracket group replaced by its value. -/
def resolveGroups (tokens : List Token) : Run Fault (List Token) :=
  closeGroups flatValue [] [] tokens

/-- The value of an expression. -/
def value (tokens : List Token) : Run Fault Binary64 := do
  let flat ← resolveGroups tokens
  flatValue flat

/-! ## Laws -/

theorem sweep_number (symbols : List String) (passed : List Token) (value : Binary64)
    (rest : List Token) :
    sweep symbols passed (.number value :: rest) = sweep symbols (.number value :: passed) rest :=
  rfl

/-- A symbol that the pass does not look for is passed over. -/
theorem sweep_other {symbols : List String} {text : String} (h : ¬ text ∈ symbols)
    (passed rest : List Token) :
    sweep symbols passed (.symbol text :: rest) = sweep symbols (.symbol text :: passed) rest := by
  rw [sweep.eq_def]
  simp [h]

/-- An operator of the pass is applied to its two neighbours. -/
theorem outcome_sweep_operator {symbols : List String} {text : String} (h : text ∈ symbols)
    (left right : Token) (passed rest : List Token) :
    (sweep symbols (left :: passed) (.symbol text :: right :: rest)).outcome =
      (Arithmetic.chainValue [left, .symbol text, right]).outcome.bind fun result =>
        (sweep symbols (.number result :: passed) rest).outcome := by
  rw [sweep.eq_def]
  simp [h, Except.bind]

theorem closeGroups_opening (groupValue : List Token → Run Fault Binary64)
    (enclosing : List (List Token)) (current rest : List Token) :
    closeGroups groupValue enclosing current (.opening :: rest) =
      closeGroups groupValue (current :: enclosing) [] rest := by
  simp [closeGroups]

/-- A closing bracket ends the innermost open group, which is evaluated and replaced. -/
theorem closeGroups_closing (groupValue : List Token → Run Fault Binary64)
    (outer : List Token) (enclosing : List (List Token)) (current rest : List Token) :
    closeGroups groupValue (outer :: enclosing) current (.closing :: rest) =
      groupValue current.reverse >>= fun value =>
        Run.report (.grouped current.reverse value) >>= fun _ =>
          closeGroups groupValue enclosing (.number value :: outer) rest := by
  simp [closeGroups, Token.opening, Token.closing]

theorem outcome_closeGroups_closing (groupValue : List Token → Run Fault Binary64)
    (outer : List Token) (enclosing : List (List Token)) (current rest : List Token) :
    (closeGroups groupValue (outer :: enclosing) current (.closing :: rest)).outcome =
      (groupValue current.reverse).outcome.bind fun value =>
        (closeGroups groupValue enclosing (.number value :: outer) rest).outcome := by
  rw [closeGroups_closing, Run.outcome_bind]
  simp [Except.bind]

/-- A token that is no bracket joins the innermost open group. -/
theorem closeGroups_other {token : Token} (h : token.isBracket = false)
    (groupValue : List Token → Run Fault Binary64) (enclosing : List (List Token))
    (current rest : List Token) :
    closeGroups groupValue enclosing current (token :: rest) =
      closeGroups groupValue enclosing (token :: current) rest := by
  obtain ⟨hopening, hclosing⟩ := Token.isBracket_eq_false_iff.1 h
  simp [closeGroups, hopening, hclosing]

theorem closeGroups_of_flat {groupValue : List Token → Run Fault Binary64} {tokens : List Token}
    (h : ∀ token ∈ tokens, token.isBracket = false) (current : List Token) :
    closeGroups groupValue [] current tokens = pure (current.reverse ++ tokens) := by
  induction tokens generalizing current with
  | nil => simp [closeGroups]
  | cons token tokens ih =>
      rw [closeGroups_other (h token List.mem_cons_self),
        ih (fun other hother => h other (List.mem_cons_of_mem _ hother)), List.reverse_cons,
        List.append_assoc, List.singleton_append]

/-- Tokens without brackets have no groups to resolve. -/
theorem resolveGroups_of_flat {tokens : List Token}
    (h : ∀ token ∈ tokens, token.isBracket = false) : resolveGroups tokens = pure tokens := by
  simp [resolveGroups, closeGroups_of_flat h]

/-- The value of tokens without brackets is computed level by level. -/
theorem value_of_flat {tokens : List Token} (h : ∀ token ∈ tokens, token.isBracket = false) :
    value tokens = flatValue tokens := by
  simp [value, resolveGroups_of_flat h]

end Reckoner.Reduction
