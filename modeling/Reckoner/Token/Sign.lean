import Reckoner.Binary64.Arithmetic
import Reckoner.Token

/-!
# Signs

A plus or minus where a number or a group may begin, directly before a number, is the sign of that
number: it becomes part of the value. Everywhere else it is an operator.

## Main results

* `foldSigns_none`: it comes to the same whether the signs of a row are joined to their numbers in
  one pass, or each number, when it is read, takes the sign that was read last.
-/

namespace Reckoner.Token

/-- Whether an operand may follow: at the start, after an opening bracket and after an operator. -/
def opensOperand : Option Token → Bool
  | none => true
  | some token => token == opening || token.isOperator

/-- Whether the last of the tokens is a sign of a number that follows. -/
def endsInSign (tokens : List Token) : Bool :=
  match tokens.reverse with
  | [] => false
  | last :: before => last.isSign && opensOperand before.head?

/-- A number under a sign. -/
def signed (sign : String) (value : Binary64) : Binary64 :=
  if sign = "-" then value.neg else value

/-- Signs become part of the numbers they belong to; `previous` is the token before the list. -/
def foldSigns (previous : Option Token) : List Token → List Token
  | [] => []
  | symbol text :: number value :: rest =>
      if opensOperand previous && (symbol text).isSign then
        number (signed text value) :: foldSigns (some (number (signed text value))) rest
      else symbol text :: foldSigns (some (symbol text)) (number value :: rest)
  | token :: rest => token :: foldSigns (some token) rest

/-- The tokens with one more that was read: a number takes the sign that they end in. -/
def attach (tokens : List Token) : Token → List Token
  | number value =>
      match tokens.getLast? with
      | some (symbol text) =>
          if endsInSign tokens then tokens.dropLast ++ [number (signed text value)]
          else tokens ++ [number value]
      | _ => tokens ++ [number value]
  | symbol text => tokens ++ [symbol text]

/-! ## Laws -/

section Laws

variable {before : List Token}

theorem endsInSign_append (before : List Token) (token : Token) :
    endsInSign (before ++ [token]) = (token.isSign && opensOperand before.getLast?) := by
  simp [endsInSign, List.head?_reverse]

theorem endsInSign_append_number (before : List Token) (value : Binary64) :
    endsInSign (before ++ [number value]) = false := by
  rw [endsInSign_append]
  rfl

theorem attach_symbol (before : List Token) (text : String) :
    attach before (symbol text) = before ++ [symbol text] := rfl

theorem attach_number_of_not_endsInSign (h : endsInSign before = false) (value : Binary64) :
    attach before (number value) = before ++ [number value] := by
  cases hlast : before.getLast? with
  | none => simp [attach, hlast]
  | some last => cases last <;> simp [attach, hlast, h]

theorem attach_number_of_endsInSign {text : String}
    (h : endsInSign (before ++ [symbol text]) = true) (value : Binary64) :
    attach (before ++ [symbol text]) (number value) = before ++ [number (signed text value)] := by
  simp only [attach, List.getLast?_concat, h, if_true, List.dropLast_concat]

/-- Joining signs to the numbers that follow them, behind tokens that were read before, is reading
one token after the other. The tokens before must not end in the sign of the first one. -/
theorem append_foldSigns {tokens : List Token}
    (h : tokens.head?.any isNumber = true → endsInSign before = false) :
    before ++ foldSigns before.getLast? tokens = tokens.foldl attach before := by
  generalize hprevious : before.getLast? = previous
  fun_induction foldSigns previous tokens generalizing before with
  | case1 => simp
  | case2 previous text value rest hsign ih =>
      subst hprevious
      have hends : endsInSign (before ++ [symbol text]) = true := by
        rw [endsInSign_append, Bool.and_comm]
        exact hsign
      rw [List.foldl_cons, List.foldl_cons, attach_symbol, attach_number_of_endsInSign hends,
        ← ih (fun _ => endsInSign_append_number before _) List.getLast?_concat, List.append_assoc]
      rfl
  | case3 previous text value rest hsign ih =>
      subst hprevious
      have hends : endsInSign (before ++ [symbol text]) = false := by
        rw [endsInSign_append, Bool.and_comm, ← Bool.not_eq_true]
        exact hsign
      rw [List.foldl_cons, attach_symbol, ← ih (fun _ => hends) List.getLast?_concat,
        List.append_assoc]
      rfl
  | case4 previous token rest hrest ih =>
      have hattach : attach before token = before ++ [token] := by
        cases token with
        | number value => exact attach_number_of_not_endsInSign (h rfl) value
        | symbol text => rfl
      have hends : rest.head?.any isNumber = true → endsInSign (before ++ [token]) = false := by
        intro hnumber
        cases token with
        | number value => exact endsInSign_append_number before value
        | symbol text =>
            rcases rest with _ | ⟨⟨value⟩ | ⟨next⟩, others⟩
            · cases hnumber
            · exact (hrest text value others rfl rfl).elim
            · cases hnumber
      rw [List.foldl_cons, hattach, ← ih hends List.getLast?_concat, List.append_assoc]
      rfl

theorem foldSigns_none (tokens : List Token) :
    foldSigns none tokens = tokens.foldl attach [] :=
  @append_foldSigns [] tokens fun _ => rfl

end Laws

end Reckoner.Token
