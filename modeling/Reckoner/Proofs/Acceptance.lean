import Reckoner.Reduction
import Reckoner.Token.Sentence

/-!
# Evaluation accepts nothing but sentences

Evaluation reads tokens in passes and knows nothing of sentences; the check of sentences reads them
once and knows nothing of values. Both rest on one thing: inside a group, numbers and operators
alternate, with a number at both ends. A pass can only replace `number operator number` by a number,
so a list that alternates after the pass alternated before it, and a group that has a value
alternates as it stands.

The check sees a token before evaluation knows whether its group will have a value. The induction
over the tokens therefore starts from an evaluation that succeeds in the end: every open group then
begins a chain, and this is what the check looks at.

## Main results

* `isChain_of_flatValue`: tokens without brackets that have a value alternate.
* `accepts_of_endsWell`: from any state of the evaluation that ends with a value, the check accepts
  the rest.
* `value_accepts_sentences_only`: a list of tokens that has a value is a sentence.
-/

namespace Reckoner

/-! ## Chains -/

namespace Chain

/-- Reads one token of a chain `number (operator number)*`. The state tells whether an operand is
due. -/
def step (due : Bool) : Token → Option Bool
  | .number _ => if due then some false else none
  | .symbol text => if !due && (Operator.ofText? text).isSome then some true else none

/-- Whether an operand is due after these tokens, if they begin a chain. -/
def after (tokens : List Token) : Option Bool := tokens.foldlM step true

/-- The tokens are a complete chain. -/
def IsChain (tokens : List Token) : Prop := after tokens = some false

theorem after_append (front back : List Token) :
    after (front ++ back) = (after front).bind fun due => back.foldlM step due := by
  rw [after, List.foldlM_append]
  rfl

theorem after_append_singleton (front : List Token) (token : Token) :
    after (front ++ [token]) = (after front).bind fun due => step due token := by
  rw [after_append]
  congr 1
  funext due
  simp

theorem step_number_eq_some {due next : Bool} {value : Binary64} :
    step due (.number value) = some next ↔ due = true ∧ next = false := by
  cases due <;> cases next <;> simp [step]

theorem step_symbol_eq_some {due next : Bool} {text : String} :
    step due (.symbol text) = some next ↔
      due = false ∧ (Operator.ofText? text).isSome = true ∧ next = true := by
  cases due <;> cases next <;> simp [step, Option.isSome_iff_ne_none]

/-- What stands in front of a number has an operand due. -/
theorem after_reverse_of_number {passed : List Token} {value : Binary64} {due : Bool}
    (h : after (.number value :: passed).reverse = some due) :
    after passed.reverse = some true := by
  rw [List.reverse_cons, after_append_singleton, Option.bind_eq_some_iff] at h
  obtain ⟨before, hbefore, hstep⟩ := h
  obtain ⟨rfl, -⟩ := step_number_eq_some.1 hstep
  exact hbefore

/-- A number inside a chain can be replaced by an operation. -/
theorem IsChain.expand {front back : List Token} {value x y : Binary64} {text : String}
    (h : IsChain (front ++ .number value :: back))
    (htext : (Operator.ofText? text).isSome = true) :
    IsChain (front ++ .number x :: .symbol text :: .number y :: back) := by
  rw [IsChain, after_append] at h ⊢
  obtain ⟨due, hfront, hback⟩ := Option.bind_eq_some_iff.1 h
  rw [hfront]
  cases due with
  | false => simp [step] at hback
  | true => simpa [step, htext] using hback

end Chain

namespace Reduction

open Chain

/-! ## What has a value is a chain -/

/-- Only an operator between two numbers has a value. -/
theorem chainValue_eq_ok {left right : Token} {text : String} {value : Binary64}
    (h : (Arithmetic.chainValue [left, .symbol text, right]).outcome = .ok value) :
    ∃ x y, left = .number x ∧ right = .number y ∧ (Operator.ofText? text).isSome = true := by
  cases left with
  | symbol other => simp [Arithmetic.chainValue] at h
  | number x =>
      cases right with
      | symbol other => simp [Arithmetic.chainValue, Arithmetic.continueChain] at h
      | number y =>
          refine ⟨x, y, rfl, rfl, ?_⟩
          cases hop : Operator.ofText? text with
          | some op => rfl
          | none =>
              simp [Arithmetic.chainValue, Arithmetic.continueChain, Token.operator?, hop] at h

/-- A pass that ends with a chain began with one. -/
theorem isChain_of_sweep {symbols : List String} {passed tokens result : List Token}
    (h : (sweep symbols passed tokens).outcome = .ok result) (hresult : IsChain result) :
    IsChain (passed.reverse ++ tokens) := by
  fun_induction sweep symbols passed tokens with
  | case1 passed =>
      simp only [Run.outcome_pure, Except.ok.injEq] at h
      rwa [List.append_nil, h]
  | case2 text hmem left passed right rest equation ih =>
      obtain ⟨value, hvalue, h⟩ := Run.outcome_bind_eq_ok.1 h
      obtain ⟨x, y, rfl, rfl, htext⟩ := chainValue_eq_ok hvalue
      have hchain := ih value h
      rw [List.reverse_cons, List.append_assoc] at hchain ⊢
      exact hchain.expand htext
  | case3 => cases h
  | case4 passed text rest hmem ih =>
      simpa using ih h
  | case5 passed value rest ih =>
      simpa using ih h

/-- Passes that end with a chain began with one. -/
theorem isChain_of_passes {levels : List (List String)} {tokens result : List Token}
    (h : (levels.foldlM (fun tokens symbols => reduceLevel symbols tokens) tokens).outcome =
      .ok result) (hresult : IsChain result) : IsChain tokens := by
  induction levels generalizing tokens with
  | nil =>
      simp only [List.foldlM_nil, Run.outcome_pure, Except.ok.injEq] at h
      rwa [h]
  | cons symbols levels ih =>
      rw [List.foldlM_cons] at h
      obtain ⟨next, hnext, h⟩ := Run.outcome_bind_eq_ok.1 h
      exact isChain_of_sweep hnext (ih h)

/-- Tokens without brackets that have a value alternate. -/
theorem isChain_of_flatValue {tokens : List Token} {value : Binary64}
    (h : (flatValue tokens).outcome = .ok value) : IsChain tokens := by
  obtain ⟨reduced, hreduced, h⟩ := Run.outcome_bind_eq_ok.1 h
  refine isChain_of_passes hreduced ?_
  split at h
  · rfl
  · cases h

/-! ## Open groups -/

/-- The evaluation ends with a value when it goes on from this state: the tokens of the enclosing
groups and of the innermost one, all in reverse, and the tokens that are still to be read. -/
def EndsWell (enclosing : List (List Token)) (current tokens : List Token) : Prop :=
  ∃ flat value, (closeGroups flatValue enclosing current tokens).outcome = .ok flat ∧
    (flatValue flat).outcome = .ok value

section Steps

variable {enclosing : List (List Token)} {current tokens : List Token}

/-- At the end no group is open, and the tokens alternate. -/
theorem EndsWell.nil (h : EndsWell enclosing current []) :
    enclosing = [] ∧ IsChain current.reverse := by
  obtain ⟨flat, value, hflat, hvalue⟩ := h
  cases enclosing with
  | cons outer enclosing => cases hflat
  | nil =>
      have hcurrent : current.reverse = flat := by simpa [closeGroups] using hflat
      exact ⟨rfl, hcurrent ▸ isChain_of_flatValue hvalue⟩

theorem EndsWell.opening (h : EndsWell enclosing current (.opening :: tokens)) :
    EndsWell (current :: enclosing) [] tokens := by
  obtain ⟨flat, value, hflat, hvalue⟩ := h
  rw [closeGroups_opening] at hflat
  exact ⟨flat, value, hflat, hvalue⟩

/-- A closing bracket ends a group whose tokens alternate. -/
theorem EndsWell.closing (h : EndsWell enclosing current (.closing :: tokens)) :
    ∃ outer rest value, enclosing = outer :: rest ∧ IsChain current.reverse ∧
      EndsWell rest (.number value :: outer) tokens := by
  obtain ⟨flat, value, hflat, hvalue⟩ := h
  cases enclosing with
  | nil => cases hflat
  | cons outer rest =>
      rw [outcome_closeGroups_closing] at hflat
      cases hgroup : (flatValue current.reverse).outcome with
      | error fault =>
          rw [hgroup] at hflat
          cases hflat
      | ok inner =>
          rw [hgroup] at hflat
          exact ⟨outer, rest, inner, rfl, isChain_of_flatValue hgroup, flat, value, hflat, hvalue⟩

theorem EndsWell.other {token : Token} (htoken : token.isBracket = false)
    (h : EndsWell enclosing current (token :: tokens)) :
    EndsWell enclosing (token :: current) tokens := by
  obtain ⟨flat, value, hflat, hvalue⟩ := h
  rw [closeGroups_other htoken] at hflat
  exact ⟨flat, value, hflat, hvalue⟩

end Steps

/-- What an evaluation that ends well has read: the innermost group begins a chain, and every group
around it has an operand due next. -/
theorem EndsWell.after {tokens : List Token} :
    ∀ {enclosing : List (List Token)} {current : List Token},
      EndsWell enclosing current tokens →
        (∃ due, Chain.after current.reverse = some due) ∧
          ∀ group ∈ enclosing, Chain.after group.reverse = some true := by
  induction tokens with
  | nil =>
      intro enclosing current h
      obtain ⟨rfl, hchain⟩ := h.nil
      exact ⟨⟨false, hchain⟩, by simp⟩
  | cons token tokens ih =>
      intro enclosing current h
      rcases token.bracket_cases with rfl | rfl | hbracket
      · obtain ⟨-, hgroups⟩ := ih h.opening
        refine ⟨⟨true, hgroups current List.mem_cons_self⟩, ?_⟩
        intro group hgroup
        exact hgroups group (List.mem_cons_of_mem _ hgroup)
      · obtain ⟨outer, rest, value, rfl, hchain, hnext⟩ := h.closing
        obtain ⟨⟨due, hdue⟩, hgroups⟩ := ih hnext
        refine ⟨⟨false, hchain⟩, ?_⟩
        intro group hgroup
        rcases List.mem_cons.1 hgroup with rfl | hgroup
        · exact after_reverse_of_number hdue
        · exact hgroups group hgroup
      · obtain ⟨⟨due, hdue⟩, hgroups⟩ := ih (h.other hbracket)
        rw [List.reverse_cons, after_append_singleton, Option.bind_eq_some_iff] at hdue
        obtain ⟨before, hbefore, -⟩ := hdue
        exact ⟨⟨before, hbefore⟩, hgroups⟩

/-! ## The check of sentences -/

/-- The check goes along with an evaluation that ends well: the two states agree in the number of
open groups and in whether an operand is due. -/
theorem accepts_of_endsWell {tokens : List Token} :
    ∀ {enclosing : List (List Token)} {current : List Token} {previous : Option Token},
      EndsWell enclosing current tokens →
      Chain.after current.reverse = some (Sentence.operandDue previous) →
        Sentence.Accepts ⟨enclosing.length, previous⟩ tokens := by
  induction tokens with
  | nil =>
      intro enclosing current previous h hdue
      obtain ⟨rfl, hchain⟩ := h.nil
      have hnot : Sentence.operandDue previous = false := Option.some.inj (hdue.symm.trans hchain)
      rw [Sentence.accepts_nil, Sentence.finish_eq_ok hnot]
      rfl
  | cons token tokens ih =>
      intro enclosing current previous h hdue
      rw [Sentence.accepts_cons]
      rcases token.bracket_cases with rfl | rfl | hbracket
      · obtain ⟨-, hgroups⟩ := h.opening.after
        have hcurrent := hgroups current List.mem_cons_self
        have hoperand : Sentence.operandDue previous = true :=
          Option.some.inj (hdue.symm.trans hcurrent)
        exact ⟨_, Sentence.read_opening_eq_ok.2 ⟨hoperand, rfl⟩, ih h.opening rfl⟩
      · obtain ⟨outer, rest, value, rfl, hchain, hnext⟩ := h.closing
        have hnot : Sentence.operandDue previous = false :=
          Option.some.inj (hdue.symm.trans hchain)
        refine ⟨_, Sentence.read_closing_eq_ok.2 ⟨hnot, rest.length, rfl, rfl⟩, ih hnext ?_⟩
        obtain ⟨⟨due, hafter⟩, -⟩ := hnext.after
        rw [List.reverse_cons, after_append_singleton, after_reverse_of_number hafter]
        rfl
      · have hnext := h.other hbracket
        obtain ⟨⟨due, hafter⟩, -⟩ := hnext.after
        rw [List.reverse_cons, after_append_singleton, hdue, Option.bind_some] at hafter
        cases token with
        | number value =>
            obtain ⟨hoperand, rfl⟩ := step_number_eq_some.1 hafter
            refine ⟨_, Sentence.read_number_eq_ok.2 ⟨hoperand, rfl⟩, ih hnext ?_⟩
            rw [List.reverse_cons, after_append_singleton, hdue]
            exact hafter
        | symbol text =>
            obtain ⟨hnot, -, rfl⟩ := step_symbol_eq_some.1 hafter
            refine ⟨_, (Sentence.read_symbol_eq_ok hbracket).2 ⟨hnot, rfl⟩, ih hnext ?_⟩
            rw [List.reverse_cons, after_append_singleton, hdue,
              Sentence.operandDue_symbol hbracket]
            exact hafter

/-- A list of tokens that has a value is a sentence. -/
theorem check_of_value {tokens : List Token} {x : Binary64}
    (h : (value tokens).outcome = .ok x) : Sentence.check tokens = .ok () := by
  obtain ⟨flat, hflat, hvalue⟩ := Run.outcome_bind_eq_ok.1 h
  have hends : EndsWell [] [] tokens := ⟨flat, x, hflat, hvalue⟩
  rw [Sentence.check_eq_ok]
  refine ⟨?_, accepts_of_endsWell hends rfl⟩
  rintro rfl
  obtain ⟨-, hchain⟩ := hends.nil
  cases hchain

/-- Whatever the tokens are, the evaluation ends with a number or with a fault; and it ends with a
number only if the tokens are a sentence, so tokens that are refused as a sentence have a fault for
their value. -/
theorem value_accepts_sentences_only (tokens : List Token) :
    ((∃ x, (value tokens).outcome = .ok x) ∧ Sentence.check tokens = .ok ()) ∨
      ∃ fault, (value tokens).outcome = .error fault := by
  cases houtcome : (value tokens).outcome with
  | ok x => exact Or.inl ⟨⟨x, rfl⟩, check_of_value houtcome⟩
  | error fault => exact Or.inr ⟨fault, rfl⟩

end Reduction

end Reckoner
