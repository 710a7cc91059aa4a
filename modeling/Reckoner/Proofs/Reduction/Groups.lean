import Mathlib.Data.List.Induction
import Reckoner.Proofs.Precedence.Evaluation

/-!
# A bracket group stands for its value

Replacing a bracket group by its value changes nothing, whatever stands around it: the tokens in
front of it may leave groups open, close too many, or fail, and so may the tokens behind it. What
the stack of open groups holds below a group never matters to the inside of the group, so the inside
is read as it would be by itself.

If the inside fails, the whole fails in the same way, provided that the evaluation comes to it. It
does if every closing bracket in front of the group has an opening one and every group that is
closed there has a value.

## Main results

* `outcome_closeGroups_below`, `error_closeGroups_below`: the inside of a group, with any stack
  below it.
* `exists_stack`: tokens whose closed groups have values are read to their end.
* `group_stands_for_its_value`: a group can be replaced by its value, and its fault is the fault of
  the whole.
-/

namespace Reckoner

namespace Reduction

/-! ## Counting open groups -/

/-- How many groups are open after a token, if so many are open before it; none is left to count
when a closing bracket has no group to close. -/
def nest (depth : Nat) (token : Token) : Option Nat :=
  if token = .opening then some (depth + 1)
  else if token = .closing then
    match depth with
    | 0 => none
    | depth + 1 => some depth
  else some depth

/-- How many groups are open after these tokens. -/
def openAfter (depth : Nat) (tokens : List Token) : Option Nat := tokens.foldlM nest depth

/-- Every bracket has its partner among the tokens. -/
def IsBalanced (tokens : List Token) : Prop := openAfter 0 tokens = some 0

instance (tokens : List Token) : Decidable (IsBalanced tokens) :=
  inferInstanceAs (Decidable (openAfter 0 tokens = some 0))

/-- Every bracket group that is closed within these tokens has a value. -/
def GroupsHaveValues (tokens : List Token) : Prop :=
  ∀ front inside back, tokens = front ++ .opening :: (inside ++ .closing :: back) →
    IsBalanced inside → ∃ x, (value inside).outcome = .ok x

theorem openAfter_cons (depth : Nat) (token : Token) (tokens : List Token) :
    openAfter depth (token :: tokens) =
      (nest depth token).bind fun next => openAfter next tokens := rfl

theorem openAfter_append (depth : Nat) (front back : List Token) :
    openAfter depth (front ++ back) =
      (openAfter depth front).bind fun next => openAfter next back := by
  rw [openAfter, List.foldlM_append]
  rfl

theorem openAfter_singleton (depth : Nat) (token : Token) :
    openAfter depth [token] = nest depth token := by
  simp [openAfter]

@[simp] theorem nest_opening (depth : Nat) : nest depth .opening = some (depth + 1) := rfl

@[simp] theorem nest_closing_succ (depth : Nat) : nest (depth + 1) .closing = some depth := rfl

/-- A token is a bracket, or it leaves the count as it is. -/
theorem nest_cases (token : Token) :
    token = .opening ∨ token = .closing ∨
      token.isBracket = false ∧ ∀ depth, nest depth token = some depth := by
  rcases token.bracket_cases with hopening | hclosing | hother
  · exact Or.inl hopening
  · exact Or.inr (Or.inl hclosing)
  · refine Or.inr (Or.inr ⟨hother, ?_⟩)
    intro depth
    obtain ⟨hopening, hclosing⟩ := Token.isBracket_eq_false_iff.1 hother
    simp [nest, hopening, hclosing]

/-- Groups that are open around the tokens stay open. -/
theorem openAfter_add {depth next : Nat} {tokens : List Token}
    (h : openAfter depth tokens = some next) (more : Nat) :
    openAfter (depth + more) tokens = some (next + more) := by
  induction tokens generalizing depth with
  | nil =>
      obtain rfl : depth = next := Option.some.inj h
      rfl
  | cons token tokens ih =>
      rw [openAfter_cons] at h ⊢
      rcases nest_cases token with rfl | rfl | ⟨-, hother⟩
      · rw [nest_opening, Option.bind_some] at h ⊢
        rw [Nat.add_right_comm]
        exact ih h
      · cases depth with
        | zero => cases h
        | succ depth =>
            rw [nest_closing_succ, Option.bind_some] at h
            rw [Nat.add_right_comm, nest_closing_succ, Option.bind_some]
            exact ih h
      · rw [hother, Option.bind_some] at h ⊢
        exact ih h

/-- Balanced tokens between brackets are balanced. -/
theorem openAfter_group {inside : List Token} (h : IsBalanced inside) (depth : Nat) :
    openAfter depth (.opening :: (inside ++ [.closing])) = some depth := by
  have hinside := openAfter_add h (depth + 1)
  rw [Nat.zero_add] at hinside
  rw [openAfter_cons, nest_opening, Option.bind_some, openAfter_append, hinside, Option.bind_some,
    openAfter_singleton, nest_closing_succ]

/-! ## The inside of a group -/

section Inside

variable {enclosing : List (List Token)} {current tokens flat : List Token}

/-- Tokens that are read to the end leave the same tokens when there is a stack below theirs. -/
theorem outcome_closeGroups_below
    (h : (closeGroups flatValue enclosing current tokens).outcome = .ok flat)
    (below : List (List Token)) (rest : List Token) :
    (closeGroups flatValue (enclosing ++ below) current (tokens ++ rest)).outcome =
      (closeGroups flatValue below flat.reverse rest).outcome := by
  induction tokens generalizing enclosing current with
  | nil =>
      cases enclosing with
      | cons outer enclosing => cases h
      | nil =>
          obtain rfl : current.reverse = flat := by simpa [closeGroups] using h
          rw [List.nil_append, List.nil_append, List.reverse_reverse]
  | cons token tokens ih =>
      rw [List.cons_append]
      rcases nest_cases token with rfl | rfl | ⟨hother, -⟩
      · rw [closeGroups_opening] at h ⊢
        exact ih h
      · cases enclosing with
        | nil => cases h
        | cons outer enclosing =>
            rw [outcome_closeGroups_closing] at h
            rw [List.cons_append, outcome_closeGroups_closing]
            cases hgroup : (flatValue current.reverse).outcome with
            | error fault =>
                rw [hgroup] at h
                cases h
            | ok x =>
                rw [hgroup] at h
                exact ih h
      · rw [closeGroups_other hother] at h ⊢
        exact ih h

/-- Balanced tokens fail in the same way when there is a stack below theirs: it is one of their
groups that has no value. -/
theorem error_closeGroups_below {fault : Fault}
    (hbalanced : openAfter enclosing.length tokens = some 0)
    (h : (closeGroups flatValue enclosing current tokens).outcome = .error fault)
    (below : List (List Token)) (rest : List Token) :
    (closeGroups flatValue (enclosing ++ below) current (tokens ++ rest)).outcome =
      .error fault := by
  induction tokens generalizing enclosing current with
  | nil =>
      cases enclosing with
      | cons outer enclosing => cases hbalanced
      | nil => cases h
  | cons token tokens ih =>
      rw [openAfter_cons] at hbalanced
      rw [List.cons_append]
      rcases nest_cases token with rfl | rfl | ⟨hother, hcount⟩
      · rw [closeGroups_opening] at h ⊢
        have hnext : openAfter (current :: enclosing).length tokens = some 0 := hbalanced
        exact ih hnext h
      · cases enclosing with
        | nil => cases hbalanced
        | cons outer enclosing =>
            rw [outcome_closeGroups_closing] at h
            rw [List.cons_append, outcome_closeGroups_closing]
            cases hgroup : (flatValue current.reverse).outcome with
            | error inner =>
                rw [hgroup] at h
                exact h
            | ok x =>
                rw [hgroup] at h
                exact ih hbalanced h
      · rw [hcount] at hbalanced
        rw [closeGroups_other hother] at h ⊢
        exact ih hbalanced h

end Inside

/-! ## A group in its place -/

section Group

variable {inner : List Token}

theorem outcome_value (tokens : List Token) :
    (value tokens).outcome =
      (closeGroups flatValue [] [] tokens).outcome.bind fun flat => (flatValue flat).outcome := by
  rw [value, Run.outcome_bind]
  rfl

/-- A group is replaced by its value. -/
theorem resolvesTo_group {x : Binary64} (h : (value inner).outcome = .ok x) :
    ResolvesTo (.opening :: (inner ++ [.closing])) [.number x] := by
  intro enclosing current rest
  rw [outcome_value] at h
  cases hflat : (closeGroups flatValue [] [] inner).outcome with
  | error fault =>
      rw [hflat] at h
      cases h
  | ok flat =>
      rw [hflat] at h
      have hinner : (flatValue flat).outcome = .ok x := h
      have hread := outcome_closeGroups_below hflat (current :: enclosing) (.closing :: rest)
      rw [List.nil_append] at hread
      rw [List.cons_append, closeGroups_opening, List.append_assoc, List.singleton_append, hread,
        outcome_closeGroups_closing, List.reverse_reverse, hinner]
      rfl

/-- A balanced group without a value ends the evaluation with its fault. -/
theorem resolutionFails_group {fault : Fault} (hbalanced : IsBalanced inner)
    (h : (value inner).outcome = .error fault) :
    ResolutionFails (.opening :: (inner ++ [.closing])) fault := by
  intro enclosing current rest
  rw [outcome_value] at h
  rw [List.cons_append, closeGroups_opening, List.append_assoc, List.singleton_append]
  cases hflat : (closeGroups flatValue [] [] inner).outcome with
  | error inside =>
      rw [hflat] at h
      obtain rfl : inside = fault := Except.error.inj h
      have hnone : openAfter ([] : List (List Token)).length inner = some 0 := hbalanced
      exact error_closeGroups_below hnone hflat (current :: enclosing) _
  | ok flat =>
      rw [hflat] at h
      have hinner : (flatValue flat).outcome = .error fault := h
      have hread := outcome_closeGroups_below hflat (current :: enclosing) (.closing :: rest)
      rw [List.nil_append] at hread
      rw [hread, outcome_closeGroups_closing, List.reverse_reverse, hinner]
      rfl

/-- What two lists behind the same tokens have in common they also have with those tokens in front
of them, whether or not these are read to their end. -/
theorem outcome_closeGroups_congr {left right : List Token}
    (h : ∀ enclosing current, (closeGroups flatValue enclosing current left).outcome =
      (closeGroups flatValue enclosing current right).outcome)
    (front : List Token) (enclosing : List (List Token)) (current : List Token) :
    (closeGroups flatValue enclosing current (front ++ left)).outcome =
      (closeGroups flatValue enclosing current (front ++ right)).outcome := by
  induction front generalizing enclosing current with
  | nil => exact h enclosing current
  | cons token front ih =>
      rw [List.cons_append, List.cons_append]
      rcases nest_cases token with rfl | rfl | ⟨hother, -⟩
      · rw [closeGroups_opening, closeGroups_opening]
        exact ih _ _
      · cases enclosing with
        | nil => rfl
        | cons outer enclosing =>
            rw [outcome_closeGroups_closing, outcome_closeGroups_closing]
            congr 1
            funext x
            exact ih _ _
      · rw [closeGroups_other hother, closeGroups_other hother]
        exact ih _ _

end Group

/-! ## The tokens in front of a group -/

/-- What the evaluation has on its stack when it has read these tokens: every open group, and the
outermost level, holds what is left of balanced tokens. -/
inductive Stack : List Token → List (List Token) → List Token → Prop
  | bottom {inside current : List Token} (hbalanced : IsBalanced inside)
      (hread : (closeGroups flatValue [] [] inside).outcome = .ok current.reverse) :
      Stack inside [] current
  | group {front inside outer current : List Token} {enclosing : List (List Token)}
      (hfront : Stack front enclosing outer) (hbalanced : IsBalanced inside)
      (hread : (closeGroups flatValue [] [] inside).outcome = .ok current.reverse) :
      Stack (front ++ .opening :: inside) (outer :: enclosing) current

section Front

variable {front piece result current : List Token} {enclosing : List (List Token)}

/-- The evaluation goes on from its stack. -/
theorem Stack.outcome_eq (h : Stack front enclosing current) (rest : List Token) :
    (closeGroups flatValue [] [] (front ++ rest)).outcome =
      (closeGroups flatValue enclosing current rest).outcome := by
  induction h generalizing rest with
  | bottom _ hread =>
      have hbelow := outcome_closeGroups_below hread [] rest
      rwa [List.reverse_reverse] at hbelow
  | @group front inside outer current enclosing _ _ hread ih =>
      have hbelow := outcome_closeGroups_below hread (outer :: enclosing) rest
      rw [List.reverse_reverse] at hbelow
      rw [List.append_assoc, List.cons_append, ih, closeGroups_opening]
      exact hbelow

/-- Tokens that are resolved go to the innermost open group. -/
theorem Stack.append (h : Stack front enclosing current) (hpiece : IsBalanced piece)
    (hresolve : ResolvesTo piece result) :
    Stack (front ++ piece) enclosing (result.reverse ++ current) := by
  have hbalanced : ∀ {inside : List Token}, IsBalanced inside → IsBalanced (inside ++ piece) := by
    intro inside hinside
    rw [IsBalanced, openAfter_append, hinside]
    exact hpiece
  have hread : ∀ {inside current : List Token},
      (closeGroups flatValue [] [] inside).outcome = .ok current.reverse →
        (closeGroups flatValue [] [] (inside ++ piece)).outcome =
          .ok (result.reverse ++ current).reverse := by
    intro inside current hinside
    have hbelow := outcome_closeGroups_below hinside [] (piece ++ [])
    rw [List.append_nil, List.append_nil, List.reverse_reverse] at hbelow
    have hend := hresolve [] current []
    rw [List.append_nil] at hend
    rw [hbelow, hend]
    simp [closeGroups]
  cases h with
  | bottom hinside hflat => exact .bottom (hbalanced hinside) (hread hflat)
  | group hfront hinside hflat =>
      rw [List.append_assoc, List.cons_append]
      exact .group hfront (hbalanced hinside) (hread hflat)

theorem GroupsHaveValues.of_append {back : List Token} (h : GroupsHaveValues (front ++ back)) :
    GroupsHaveValues front := by
  intro before inside behind heq hinside
  refine h before inside (behind ++ back) ?_ hinside
  rw [heq]
  simp

/-- Tokens whose closing brackets have their partners, and whose closed groups have values, are read
to their end. -/
theorem exists_stack {tokens : List Token} {depth : Nat} (hdepth : openAfter 0 tokens = some depth)
    (hgroups : GroupsHaveValues tokens) :
    ∃ enclosing current, Stack tokens enclosing current ∧ enclosing.length = depth := by
  induction tokens using List.reverseRecOn generalizing depth with
  | nil =>
      obtain rfl : 0 = depth := Option.some.inj hdepth
      exact ⟨[], [], .bottom rfl rfl, rfl⟩
  | append_singleton tokens token ih =>
      rw [openAfter_append, Option.bind_eq_some_iff] at hdepth
      obtain ⟨before, hbefore, htoken⟩ := hdepth
      rw [openAfter_singleton] at htoken
      obtain ⟨enclosing, current, hstack, hlength⟩ := ih hbefore hgroups.of_append
      rcases nest_cases token with rfl | rfl | ⟨hother, hcount⟩
      · obtain rfl : before + 1 = depth := Option.some.inj htoken
        exact ⟨current :: enclosing, [], .group hstack rfl rfl, by simp [hlength]⟩
      · -- The group that is closed is the innermost one on the stack.
        cases hstack with
        | bottom =>
            obtain rfl : 0 = before := hlength
            cases htoken
        | @group front inside outer _ enclosing hfront hbalanced hread =>
            obtain rfl : enclosing.length + 1 = before := hlength
            obtain rfl : enclosing.length = depth := Option.some.inj htoken
            obtain ⟨x, hx⟩ := hgroups front inside [] (by simp) hbalanced
            have happend := hfront.append (openAfter_group hbalanced 0) (resolvesTo_group hx)
            refine ⟨enclosing, .number x :: outer, ?_, rfl⟩
            rw [List.append_assoc, List.cons_append]
            exact happend
      · rw [hcount] at htoken
        obtain rfl : before = depth := Option.some.inj htoken
        have hbalanced : IsBalanced [token] := by
          rw [IsBalanced, openAfter_singleton, hcount]
        exact ⟨enclosing, [token] ++ current,
          hstack.append hbalanced (resolvesTo_of_not_bracket hother), hlength⟩

end Front

/-! ## The value of the whole -/

/-- A bracket group whose inside has a value can be replaced by it, whatever the tokens around the
group are: the whole has the same value or the same fault. If the inside is balanced and has no
value, the whole ends with the fault of the inside, provided that in front of the group every
closing bracket has its partner and every closed group has a value. -/
theorem group_stands_for_its_value (front inner back : List Token) :
    (∀ x, (value inner).outcome = .ok x →
        (value (front ++ .opening :: (inner ++ .closing :: back))).outcome =
          (value (front ++ .number x :: back)).outcome) ∧
      (∀ fault, IsBalanced inner → (value inner).outcome = .error fault →
        (openAfter 0 front).isSome → GroupsHaveValues front →
          (value (front ++ .opening :: (inner ++ .closing :: back))).outcome = .error fault) := by
  have hgroup : Token.opening :: (inner ++ .closing :: back) =
      (.opening :: (inner ++ [.closing])) ++ back := by simp
  rw [hgroup]
  constructor
  · intro x hx
    have hplace : ∀ enclosing current,
        (closeGroups flatValue enclosing current
            ((.opening :: (inner ++ [.closing])) ++ back)).outcome =
          (closeGroups flatValue enclosing current (.number x :: back)).outcome := by
      intro enclosing current
      rw [resolvesTo_group hx, closeGroups_other rfl]
      rfl
    rw [outcome_value, outcome_value, outcome_closeGroups_congr hplace front [] []]
  · intro fault hbalanced hfault hopen hvalues
    obtain ⟨depth, hdepth⟩ := Option.isSome_iff_exists.1 hopen
    obtain ⟨enclosing, current, hstack, -⟩ := exists_stack hdepth hvalues
    rw [outcome_value, hstack.outcome_eq, resolutionFails_group hbalanced hfault]
    rfl

/-- In `((2*(1+2)`, where brackets are missing, the sum can be replaced by 3; and the division by
zero in `(1)*(1/0)` is the fault of the whole. -/
theorem sum_replaced_and_quotient_fails :
    ((value [.number (.ofNat 1), .symbol "+", .number (.ofNat 2)]).outcome = .ok (.ofNat 3) ∧
        (value ([.opening, .opening, .number (.ofNat 2), .symbol "*"] ++
            .opening :: ([.number (.ofNat 1), .symbol "+", .number (.ofNat 2)] ++
              .closing :: []))).outcome =
          (value ([.opening, .opening, .number (.ofNat 2), .symbol "*"] ++
            .number (.ofNat 3) :: [])).outcome) ∧
      IsBalanced [.number (.ofNat 1), .symbol "/", .number (.ofNat 0)] ∧
        (value [.number (.ofNat 1), .symbol "/", .number (.ofNat 0)]).outcome =
          .error (.divisionByZero (.ofNat 1)) ∧
        (openAfter 0 [.opening, .number (.ofNat 1), .closing, .symbol "*"]).isSome ∧
        GroupsHaveValues [.opening, .number (.ofNat 1), .closing, .symbol "*"] ∧
          (value ([.opening, .number (.ofNat 1), .closing, .symbol "*"] ++
            .opening :: ([.number (.ofNat 1), .symbol "/", .number (.ofNat 0)] ++
              .closing :: []))).outcome = .error (.divisionByZero (.ofNat 1)) := by
  have hsum : (value [.number (.ofNat 1), .symbol "+", .number (.ofNat 2)]).outcome =
      .ok (.ofNat 3) := by decide +kernel
  have hbalanced : IsBalanced [.number (.ofNat 1), .symbol "/", .number (.ofNat 0)] := by
    decide +kernel
  have hfault : (value [.number (.ofNat 1), .symbol "/", .number (.ofNat 0)]).outcome =
      .error (.divisionByZero (.ofNat 1)) := by decide +kernel
  have hopen : (openAfter 0 [.opening, .number (.ofNat 1), .closing, .symbol "*"]).isSome := by
    decide +kernel
  have hvalues : GroupsHaveValues [.opening, .number (.ofNat 1), .closing, .symbol "*"] := by
    intro before inside behind heq hinside
    -- The only opening bracket is the first token, and the only closing one the third.
    have hsplit : before = [] ∧ inside = [.number (.ofNat 1)] ∧ behind = [.symbol "*"] := by
      simpa [Token.opening, Token.closing, List.cons_eq_append_iff, List.append_eq_cons_iff]
        using heq
    obtain ⟨-, rfl, -⟩ := hsplit
    exact ⟨.ofNat 1, by decide +kernel⟩
  exact ⟨⟨hsum, (group_stands_for_its_value _ _ _).1 _ hsum⟩, hbalanced, hfault, hopen, hvalues,
    (group_stands_for_its_value _ _ _).2 _ hbalanced hfault hopen hvalues⟩

end Reduction

end Reckoner
