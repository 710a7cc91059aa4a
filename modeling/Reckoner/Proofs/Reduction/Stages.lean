import Mathlib.Algebra.BigOperators.Group.List.Basic
import Mathlib.Algebra.Ring.Nat
import Reckoner.Proofs.Reduction.Leftmost

/-!
# What every stage leaves behind

The evaluation of tokens with brackets calls itself: a group is closed by evaluating its interior,
and an interior with brackets would have its own groups resolved first. It never has any. Brackets
are read one by one and none of them joins a group, so whatever is on the stack of open groups holds
no bracket, and neither does an interior when its group is closed. The evaluation of an interior
therefore goes straight to the passes, and groups are resolved at most once, however deeply they are
nested and however badly the brackets match.

A pass that comes to its end has applied all operators that it looks for. It keeps every other
symbol, and each operator takes itself and one of its two operands away.

## Main results

* `isFlat_of_mem_interiors`: no interior holds a bracket. The induction is on the tokens, and the
  invariant is that no group on the stack holds a bracket.
* `evaluates_iff`: the evaluation that calls itself ends, with the value of the tokens, and resolves
  groups at most once.
* `isReduced_of_sweep`: what a pass leaves, with anything to its left that it has passed over.
* `stages_keep_invariants`: the invariants of all stages.
-/

namespace Reckoner

namespace Token

/-- Whether a token is a symbol, but none of the given ones. -/
def isOther (symbols : List String) : Token → Bool
  | number _ => false
  | symbol text => !symbols.contains text

end Token

namespace Reduction

/-! ## Tokens without brackets -/

/-- No token is a bracket. -/
def IsFlat (tokens : List Token) : Prop := ∀ token ∈ tokens, token.isBracket = false

instance (tokens : List Token) : Decidable (IsFlat tokens) :=
  inferInstanceAs (Decidable (∀ token ∈ tokens, token.isBracket = false))

theorem isFlat_nil : IsFlat [] := by
  intro token htoken
  cases htoken

theorem isFlat_cons {token : Token} {tokens : List Token} :
    IsFlat (token :: tokens) ↔ token.isBracket = false ∧ IsFlat tokens :=
  List.forall_mem_cons

theorem IsFlat.reverse {tokens : List Token} (h : IsFlat tokens) : IsFlat tokens.reverse := by
  intro token htoken
  exact h token (List.mem_reverse.1 htoken)

/-! ## Interiors -/

/-- The interiors of groups that are handed to their evaluation, in the order in which the groups
are closed. It ends at the first interior without a value. -/
def interiors (groupValue : List Token → Run Fault Binary64) (enclosing : List (List Token))
    (current : List Token) : List Token → List (List Token)
  | [] => []
  | token :: rest =>
      if token = .opening then interiors groupValue (current :: enclosing) [] rest
      else if token = .closing then
        match enclosing with
        | [] => []
        | outer :: enclosing =>
            current.reverse ::
              match (groupValue current.reverse).outcome with
              | .ok value => interiors groupValue enclosing (.number value :: outer) rest
              | .error _ => []
      else interiors groupValue enclosing (token :: current) rest

section Interiors

variable {groupValue : List Token → Run Fault Binary64} {enclosing : List (List Token)}
  {current outer rest : List Token}

theorem interiors_opening :
    interiors groupValue enclosing current (.opening :: rest) =
      interiors groupValue (current :: enclosing) [] rest := by
  simp [interiors]

theorem interiors_closing :
    interiors groupValue (outer :: enclosing) current (.closing :: rest) =
      current.reverse ::
        match (groupValue current.reverse).outcome with
        | .ok value => interiors groupValue enclosing (.number value :: outer) rest
        | .error _ => [] := by
  simp [interiors, Token.opening, Token.closing]

theorem interiors_other {token : Token} (h : token.isBracket = false) :
    interiors groupValue enclosing current (token :: rest) =
      interiors groupValue enclosing (token :: current) rest := by
  obtain ⟨hopening, hclosing⟩ := Token.isBracket_eq_false_iff.1 h
  simp [interiors, hopening, hclosing]

/-- Evaluations that agree on the interiors that are handed over resolve the groups alike: these
interiors are all that is evaluated. -/
theorem closeGroups_congr {f g : List Token → Run Fault Binary64} {tokens : List Token} :
    ∀ {enclosing : List (List Token)} {current : List Token},
      (∀ interior ∈ interiors f enclosing current tokens, f interior = g interior) →
        closeGroups f enclosing current tokens = closeGroups g enclosing current tokens := by
  induction tokens with
  | nil =>
      intro enclosing current _
      rfl
  | cons token tokens ih =>
      intro enclosing current h
      rcases token.bracket_cases with rfl | rfl | hother
      · rw [interiors_opening] at h
        rw [closeGroups_opening, closeGroups_opening]
        exact ih h
      · cases enclosing with
        | nil => rfl
        | cons outer enclosing =>
            rw [interiors_closing, List.forall_mem_cons] at h
            rw [closeGroups_closing, closeGroups_closing, ← h.1]
            apply Run.bind_congr
            intro value hvalue
            have hrest := h.2
            rw [hvalue] at hrest
            rw [ih hrest]
      · rw [interiors_other hother] at h
        rw [closeGroups_other hother, closeGroups_other hother]
        exact ih h

/-- No interior that is handed over holds a bracket, whatever the groups are worth, if no group on
the stack holds one. -/
theorem isFlat_of_mem_interiors {tokens : List Token} :
    ∀ {enclosing : List (List Token)} {current : List Token},
      (∀ group ∈ enclosing, IsFlat group) → IsFlat current →
        ∀ interior ∈ interiors groupValue enclosing current tokens, IsFlat interior := by
  induction tokens with
  | nil =>
      intro enclosing current _ _ interior hinterior
      cases hinterior
  | cons token tokens ih =>
      intro enclosing current henclosing hcurrent
      rcases token.bracket_cases with rfl | rfl | hother
      · rw [interiors_opening]
        exact ih (List.forall_mem_cons.2 ⟨hcurrent, henclosing⟩) isFlat_nil
      · cases enclosing with
        | nil =>
            intro interior hinterior
            cases hinterior
        | cons outer enclosing =>
            obtain ⟨houter, henclosing⟩ := List.forall_mem_cons.1 henclosing
            rw [interiors_closing, List.forall_mem_cons]
            refine ⟨hcurrent.reverse, ?_⟩
            cases (groupValue current.reverse).outcome with
            | ok value => exact ih henclosing (isFlat_cons.2 ⟨rfl, houter⟩)
            | error fault =>
                intro interior hinterior
                cases hinterior
      · rw [interiors_other hother]
        exact ih henclosing (isFlat_cons.2 ⟨hother, hcurrent⟩)

/-- When all groups are closed no bracket is left, if no group on the stack holds one. -/
theorem isFlat_of_closeGroups {tokens flat : List Token} :
    ∀ {enclosing : List (List Token)} {current : List Token},
      (∀ group ∈ enclosing, IsFlat group) → IsFlat current →
        (closeGroups groupValue enclosing current tokens).outcome = .ok flat → IsFlat flat := by
  induction tokens with
  | nil =>
      intro enclosing current _ hcurrent h
      cases enclosing with
      | nil =>
          obtain rfl : current.reverse = flat := by simpa [closeGroups] using h
          exact hcurrent.reverse
      | cons outer enclosing => cases h
  | cons token tokens ih =>
      intro enclosing current henclosing hcurrent h
      rcases token.bracket_cases with rfl | rfl | hother
      · rw [closeGroups_opening] at h
        exact ih (List.forall_mem_cons.2 ⟨hcurrent, henclosing⟩) isFlat_nil h
      · cases enclosing with
        | nil => cases h
        | cons outer enclosing =>
            obtain ⟨houter, henclosing⟩ := List.forall_mem_cons.1 henclosing
            rw [closeGroups_closing] at h
            obtain ⟨value, -, h⟩ := Run.outcome_bind_eq_ok.1 h
            exact ih henclosing (isFlat_cons.2 ⟨rfl, houter⟩) h
      · rw [closeGroups_other hother] at h
        exact ih henclosing (isFlat_cons.2 ⟨hother, hcurrent⟩) h

end Interiors

/-! ## The evaluation that calls itself -/

/-- The evaluation of tokens as it calls itself, and how often it resolves groups: it has to if
there is a bracket, and then the interior of every group is evaluated in the same way. -/
inductive Evaluates : List Token → Run Fault Binary64 → Nat → Prop
  | flat {tokens : List Token} (hflat : IsFlat tokens) : Evaluates tokens (flatValue tokens) 0
  | grouped {tokens : List Token} {groupValue : List Token → Run Fault Binary64}
      {entries : List Token → Nat} (hbracket : ¬ IsFlat tokens)
      (hinteriors : ∀ interior ∈ interiors groupValue [] [] tokens,
        Evaluates interior (groupValue interior) (entries interior)) :
      Evaluates tokens (closeGroups groupValue [] [] tokens >>= flatValue)
        (1 + ((interiors groupValue [] [] tokens).map entries).sum)

theorem Evaluates.of_isFlat {tokens : List Token} {run : Run Fault Binary64} {entries : Nat}
    (hflat : IsFlat tokens) (h : Evaluates tokens run entries) :
    run = flatValue tokens ∧ entries = 0 := by
  cases h with
  | flat => exact ⟨rfl, rfl⟩
  | grouped hbracket => exact absurd hflat hbracket

/-- The evaluation that calls itself ends for every list of tokens, and in one way only: with the
value of the tokens. Groups are resolved once if there is a bracket, and not at all otherwise. -/
theorem evaluates_iff {tokens : List Token} {run : Run Fault Binary64} {entries : Nat} :
    Evaluates tokens run entries ↔
      run = value tokens ∧ entries = if IsFlat tokens then 0 else 1 := by
  constructor
  · intro h
    cases h with
    | flat hflat => exact ⟨(value_of_flat hflat).symm, (if_pos hflat).symm⟩
    | @grouped _ groupValue entries hbracket hinteriors =>
        have hdirect : ∀ interior ∈ interiors groupValue [] [] tokens,
            groupValue interior = flatValue interior ∧ entries interior = 0 := by
          intro interior hinterior
          have hflat : IsFlat interior := isFlat_of_mem_interiors (by simp) isFlat_nil _ hinterior
          exact (hinteriors interior hinterior).of_isFlat hflat
        have hnone : ((interiors groupValue [] [] tokens).map entries).sum = 0 := by
          apply List.sum_eq_zero
          intro n hn
          obtain ⟨interior, hinterior, rfl⟩ := List.mem_map.1 hn
          exact (hdirect interior hinterior).2
        have hgroups : closeGroups groupValue [] [] tokens = resolveGroups tokens :=
          closeGroups_congr fun interior hinterior => (hdirect interior hinterior).1
        rw [hgroups, hnone, if_neg hbracket]
        exact ⟨rfl, rfl⟩
  · rintro ⟨rfl, rfl⟩
    by_cases hflat : IsFlat tokens
    · rw [value_of_flat hflat, if_pos hflat]
      exact .flat hflat
    · have hinteriors : ∀ interior ∈ interiors flatValue [] [] tokens,
          Evaluates interior (flatValue interior) 0 := by
        intro interior hinterior
        exact .flat (isFlat_of_mem_interiors (by simp) isFlat_nil _ hinterior)
      have hvalue : value tokens = closeGroups flatValue [] [] tokens >>= flatValue := rfl
      have h := Evaluates.grouped hflat hinteriors
      rw [hvalue, if_neg hflat]
      simpa using h

/-! ## Passes -/

/-- What a pass leaves: none of its operators, every other symbol in its order, and two tokens fewer
for each operator. -/
structure IsReduced (symbols : List String) (tokens reduced : List Token) : Prop where
  free : FreeOf symbols reduced
  kept : reduced.filter (Token.isOther symbols) = tokens.filter (Token.isOther symbols)
  length : reduced.length + 2 * tokens.countP (Token.isAmong symbols) = tokens.length

section Passes

variable {symbols : List String} {front back passed tokens reduced : List Token}

theorem FreeOf.isReduced (h : FreeOf symbols tokens) : IsReduced symbols tokens tokens := by
  have hnone : tokens.countP (Token.isAmong symbols) = 0 := by
    rw [List.countP_eq_zero]
    intro token htoken
    simp [h token htoken]
  exact ⟨h, rfl, by rw [hnone]; omega⟩

/-- Where a pass goes on with the result of an operator, it could have begun in front of it. -/
theorem IsReduced.expand {text : String} {x y result : Binary64} (htext : text ∈ symbols)
    (h : IsReduced symbols (front ++ .number result :: back) reduced) :
    IsReduced symbols (front ++ .number x :: .symbol text :: .number y :: back) reduced := by
  have hkept := h.kept
  have hlength := h.length
  refine ⟨h.free, ?_, ?_⟩
  · simpa [Token.isOther, htext] using hkept
  · simp only [List.length_append, List.length_cons, List.countP_append, List.countP_cons,
      Token.isAmong, List.contains_eq_mem, htext, decide_true, if_true, Bool.false_eq_true,
      if_false] at hlength ⊢
    omega

theorem isReduced_of_sweep (hpassed : FreeOf symbols passed.reverse)
    (h : (sweep symbols passed tokens).outcome = .ok reduced) :
    IsReduced symbols (passed.reverse ++ tokens) reduced := by
  fun_induction sweep symbols passed tokens with
  | case1 passed =>
      obtain rfl : passed.reverse = reduced := Except.ok.inj h
      rw [List.append_nil]
      exact hpassed.isReduced
  | case2 text hmem left passed right rest equation ih =>
      obtain ⟨result, hresult, h⟩ := Run.outcome_bind_eq_ok.1 h
      obtain ⟨x, y, rfl, rfl, -⟩ := chainValue_eq_ok hresult
      rw [List.reverse_cons] at hpassed
      have hrebuilt : FreeOf symbols (Token.number result :: passed).reverse := by
        rw [List.reverse_cons]
        exact FreeOf.snoc (fun token htoken => hpassed token (List.mem_append_left _ htoken)) rfl
      have hrest := ih result hrebuilt h
      rw [List.reverse_cons, List.append_assoc] at hrest ⊢
      exact hrest.expand (by simpa using hmem)
  | case3 => cases h
  | case4 passed text rest hmem ih =>
      rw [List.reverse_cons] at ih
      simpa using ih (hpassed.snoc (by simpa [Token.isAmong] using hmem)) h
  | case5 passed value rest ih =>
      rw [List.reverse_cons] at ih
      simpa using ih (hpassed.snoc rfl) h

end Passes

/-- The invariants of the stages, for every list of tokens. No interior that is handed over for
evaluation holds a bracket, whatever the groups are worth, so that the evaluation that calls itself
always ends, with the value of the tokens, and resolves groups at most once. When groups are
resolved no bracket is left. When a pass is completed none of its operators is left, all other
symbols are there in their order, and two tokens have gone for each operator. -/
theorem stages_keep_invariants (tokens : List Token) :
    (∀ (groupValue : List Token → Run Fault Binary64),
        ∀ interior ∈ interiors groupValue [] [] tokens, IsFlat interior) ∧
      (∀ (run : Run Fault Binary64) (entries : Nat), Evaluates tokens run entries ↔
        run = value tokens ∧ entries = if IsFlat tokens then 0 else 1) ∧
      (∀ flat : List Token, (resolveGroups tokens).outcome = .ok flat → IsFlat flat) ∧
      ∀ (symbols : List String) (reduced : List Token),
        (reduceLevel symbols tokens).outcome = .ok reduced → IsReduced symbols tokens reduced := by
  refine ⟨?_, ?_, ?_, ?_⟩
  · intro groupValue
    exact isFlat_of_mem_interiors (by simp) isFlat_nil
  · intro run entries
    exact evaluates_iff
  · intro flat h
    exact isFlat_of_closeGroups (by simp) isFlat_nil h
  · intro symbols reduced h
    exact isReduced_of_sweep (by simp [FreeOf]) h

/-- In `((1+2))*3` the sum is the interior of the inner group, the product is left when the groups
are resolved, and a pass for sums takes two of the nine tokens away. -/
theorem nested_sum_keeps_invariants :
    ([.number (.ofNat 1), .symbol "+", .number (.ofNat 2)] ∈
          interiors flatValue [] []
            [.opening, .opening, .number (.ofNat 1), .symbol "+", .number (.ofNat 2), .closing,
              .closing, .symbol "*", .number (.ofNat 3)] ∧
        IsFlat [.number (.ofNat 1), .symbol "+", .number (.ofNat 2)]) ∧
      ((resolveGroups [.opening, .opening, .number (.ofNat 1), .symbol "+", .number (.ofNat 2),
            .closing, .closing, .symbol "*", .number (.ofNat 3)]).outcome =
          .ok [.number (.ofNat 3), .symbol "*", .number (.ofNat 3)] ∧
        IsFlat [.number (.ofNat 3), .symbol "*", .number (.ofNat 3)]) ∧
      (reduceLevel ["+", "-"] [.opening, .opening, .number (.ofNat 1), .symbol "+",
            .number (.ofNat 2), .closing, .closing, .symbol "*", .number (.ofNat 3)]).outcome =
          .ok [.opening, .opening, .number (.ofNat 3), .closing, .closing, .symbol "*",
            .number (.ofNat 3)] ∧
        IsReduced ["+", "-"]
          [.opening, .opening, .number (.ofNat 1), .symbol "+", .number (.ofNat 2), .closing,
            .closing, .symbol "*", .number (.ofNat 3)]
          [.opening, .opening, .number (.ofNat 3), .closing, .closing, .symbol "*",
            .number (.ofNat 3)] := by
  have hinterior : [.number (.ofNat 1), .symbol "+", .number (.ofNat 2)] ∈
      interiors flatValue [] []
        [.opening, .opening, .number (.ofNat 1), .symbol "+", .number (.ofNat 2), .closing,
          .closing, .symbol "*", .number (.ofNat 3)] := by decide +kernel
  have hresolve : (resolveGroups [.opening, .opening, .number (.ofNat 1), .symbol "+",
      .number (.ofNat 2), .closing, .closing, .symbol "*", .number (.ofNat 3)]).outcome =
        .ok [.number (.ofNat 3), .symbol "*", .number (.ofNat 3)] := by decide +kernel
  have hpass : (reduceLevel ["+", "-"] [.opening, .opening, .number (.ofNat 1), .symbol "+",
      .number (.ofNat 2), .closing, .closing, .symbol "*", .number (.ofNat 3)]).outcome =
        .ok [.opening, .opening, .number (.ofNat 3), .closing, .closing, .symbol "*",
          .number (.ofNat 3)] := by decide +kernel
  obtain ⟨hinteriors, -, hflat, hreduced⟩ := stages_keep_invariants
    [.opening, .opening, .number (.ofNat 1), .symbol "+", .number (.ofNat 2), .closing, .closing,
      .symbol "*", .number (.ofNat 3)]
  exact ⟨⟨hinterior, hinteriors flatValue _ hinterior⟩, ⟨hresolve, hflat _ hresolve⟩, hpass,
    hreduced _ _ hpass⟩

end Reduction

end Reckoner
