import Reckoner.Proofs.Answer
import Reckoner.Proofs.Reduction.Stages
import Reckoner.Trace.Record

/-!
# Every operator is applied once

An evaluation that ends with a value has reported nothing but its steps: operators that were applied
to their two neighbours and bracket groups that were replaced by their values. Each step takes one
operator or one group away and adds none, so the steps so far and what is left of the tokens
together hold as many operators and groups as the tokens held at the beginning. At the end a single
number is left.

The interior of a group is evaluated by passes of its own, in the middle of the others. The law is
therefore carried through the stack of open groups: the operators that are left are those on the
stack and those of the tokens that have not been read.

What a reader of the log has are the records. A record of a step says which one it is by its first
word, so the steps can be counted in the log, and what it shows are the tokens that were computed
and their value.

## Main results

* `account_sweep`, `account_closeGroups`: what one pass, and the resolution of groups, has reported,
  from any state.
* `account_value`: the account of an evaluation that ends with a value.
* `Accounts.records`: the same account of the records.
* `answer_is_accounted_for`: the log of an answer.
-/

namespace Reckoner

/-! ## Steps -/

namespace Event

def isApplied : Event → Bool
  | applied .. => true
  | _ => false

def isGrouped : Event → Bool
  | grouped .. => true
  | _ => false

/-- A step that shows what it computes: the value of one operation, or that of the interior of a
group, which holds no bracket. -/
inductive IsStep : Event → Prop
  | applied {left right : Token} {op : Operator} {x : Binary64}
      (hvalue : (Arithmetic.chainValue [left, .ofOperator op, right]).outcome = .ok x) :
      IsStep (.applied [left, .ofOperator op, right] x)
  | grouped {interior : List Token} {x : Binary64} (hflat : Reduction.IsFlat interior)
      (hvalue : (Reduction.value interior).outcome = .ok x) : IsStep (.grouped interior x)

end Event

/-- The events are steps, of which so many apply an operator and so many replace a group. -/
structure Accounts (events : List Event) (operators groups : Nat) : Prop where
  steps : ∀ event ∈ events, event.IsStep
  operators : events.countP Event.isApplied = operators
  groups : events.countP Event.isGrouped = groups

namespace Accounts

theorem nil : Accounts [] 0 0 := ⟨by simp, rfl, rfl⟩

theorem applied {left right : Token} {op : Operator} {x : Binary64}
    (hvalue : (Arithmetic.chainValue [left, .ofOperator op, right]).outcome = .ok x) :
    Accounts [.applied [left, .ofOperator op, right] x] 1 0 :=
  ⟨List.forall_mem_singleton.2 (.applied hvalue), rfl, rfl⟩

theorem grouped {interior : List Token} {x : Binary64} (hflat : Reduction.IsFlat interior)
    (hvalue : (Reduction.value interior).outcome = .ok x) :
    Accounts [.grouped interior x] 0 1 :=
  ⟨List.forall_mem_singleton.2 (.grouped hflat hvalue), rfl, rfl⟩

theorem append {front back : List Event} {operators groups operators' groups' : Nat}
    (hfront : Accounts front operators groups) (hback : Accounts back operators' groups') :
    Accounts (front ++ back) (operators + operators') (groups + groups') := by
  refine ⟨List.forall_mem_append.2 ⟨hfront.steps, hback.steps⟩, ?_, ?_⟩
  · rw [List.countP_append, hfront.operators, hback.operators]
  · rw [List.countP_append, hfront.groups, hback.groups]

end Accounts

/-! ## Records of steps -/

namespace Record

/-- The message begins with this word. -/
def beginsWith (word : String) (record : Record) : Bool :=
  word.toList.isPrefixOf record.message.toList

/-- A record that shows a step: the slice of an operator and its two neighbours with the value that
arithmetic gives for it, or the interior of a group, which holds no bracket, with the value that its
evaluation gives. -/
inductive IsStep : Record → Prop
  | collapse {left right : Token} {op : Operator} {x : Binary64}
      (hvalue : (Arithmetic.chainValue [left, .ofOperator op, right]).outcome = .ok x) :
      IsStep ⟨"DEBUG", "Calculator.MathEngine",
        "collapse " ++ Token.shownEquation [left, .ofOperator op, right] ++ " -> "
          ++ x.shortestText⟩
  | bracket {interior : List Token} {x : Binary64} (hflat : Reduction.IsFlat interior)
      (hvalue : (Reduction.value interior).outcome = .ok x) :
      IsStep ⟨"DEBUG", "Calculator.MathEngine",
        "bracket " ++ Token.shownEquation interior ++ " -> " ++ x.shortestText⟩

/-- The records are steps, of which so many collapse an operation and so many a bracket group. -/
structure Accounts (records : List Record) (operators groups : Nat) : Prop where
  steps : ∀ record ∈ records, record.IsStep
  operators : records.countP (beginsWith "collapse ") = operators
  groups : records.countP (beginsWith "bracket ") = groups

theorem isStep_ofEvent {event : Event} (h : event.IsStep) : IsStep (ofEvent event) := by
  cases h with
  | applied hvalue => exact .collapse hvalue
  | grouped hflat hvalue => exact .bracket hflat hvalue

/-- The first word of a record tells an applied operator from a replaced group. -/
theorem beginsWith_ofEvent {event : Event} (h : event.IsStep) :
    beginsWith "collapse " (ofEvent event) = event.isApplied ∧
      beginsWith "bracket " (ofEvent event) = event.isGrouped := by
  cases h <;>
    simp [beginsWith, ofEvent, reduction, Event.isApplied, Event.isGrouped, List.isPrefixOf]

end Record

/-- What accounts for events accounts for their records. -/
theorem Accounts.records {events : List Event} {operators groups : Nat}
    (h : Accounts events operators groups) :
    Record.Accounts (events.map Record.ofEvent) operators groups where
  steps := by
    intro record hmem
    obtain ⟨event, hevent, rfl⟩ := List.mem_map.1 hmem
    exact Record.isStep_ofEvent (h.steps event hevent)
  operators := by
    rw [List.countP_map, ← h.operators]
    refine List.countP_congr fun event hevent => ?_
    rw [Function.comp_apply, (Record.beginsWith_ofEvent (h.steps event hevent)).1]
  groups := by
    rw [List.countP_map, ← h.groups]
    refine List.countP_congr fun event hevent => ?_
    rw [Function.comp_apply, (Record.beginsWith_ofEvent (h.steps event hevent)).2]

/-! ## Arithmetic -/

namespace Arithmetic

theorem events_operate {equation : List Token} {op : Operator} {x y result : Binary64}
    (h : (operate equation op x y).outcome = .ok result) :
    (operate equation op x y).events = [] := by
  unfold operate at h ⊢
  cases happly : op.apply x y with
  | error fault =>
      rw [happly] at h
      cases h
  | ok value =>
      simp only
      split <;> rfl

theorem events_continueChain {equation tokens : List Token} {value result : Binary64}
    (h : (continueChain equation value tokens).outcome = .ok result) :
    (continueChain equation value tokens).events = [] := by
  fun_induction continueChain equation value tokens with
  | case1 => rfl
  | case2 value operator operand rest op hop ih =>
      obtain ⟨next, hnext, hrest, hevents⟩ := Run.exists_of_bind_eq_ok h
      rw [hevents, events_operate hnext, ih next hrest]
      rfl
  | case3 => rfl
  | case4 => rfl

/-- A chain that has a value reports nothing. -/
theorem events_chainValue {equation : List Token} {result : Binary64}
    (h : (chainValue equation).outcome = .ok result) : (chainValue equation).events = [] := by
  unfold chainValue at h ⊢
  split
  · split
    · next first rest hlength =>
      simp only [if_pos hlength] at h
      exact events_continueChain h
    · rfl
  · rfl

end Arithmetic

/-! ## Reduction -/

namespace Reduction

open Token

/-- An operation holds one operator more than its result. -/
theorem countP_isOperator_operation (op : Operator) (x y result : Binary64)
    (front back : List Token) :
    (front ++ number x :: ofOperator op :: number y :: back).countP isOperator =
      1 + (front ++ number result :: back).countP isOperator := by
  have hoperator : (ofOperator op).isOperator = true := by cases op <;> decide
  have hnumber : ∀ value, (number value).isOperator = false := fun _ => rfl
  simp only [List.countP_append, List.countP_cons, hoperator, hnumber, if_true,
    Bool.false_eq_true, if_false]
  omega

/-- A pass has applied the operators that it took away. -/
theorem account_sweep {symbols : List String} {passed tokens reduced : List Token}
    (h : (sweep symbols passed tokens).outcome = .ok reduced) :
    ∃ n, Accounts (sweep symbols passed tokens).events n 0 ∧
      n + reduced.countP isOperator = (passed.reverse ++ tokens).countP isOperator := by
  fun_induction sweep symbols passed tokens with
  | case1 passed =>
      obtain rfl : passed.reverse = reduced := Except.ok.inj h
      exact ⟨0, .nil, by simp⟩
  | case2 text hmem left passed right rest equation ih =>
      obtain ⟨result, hresult, h, hevents⟩ := Run.exists_of_bind_eq_ok h
      obtain ⟨x, y, rfl, rfl, htext⟩ := chainValue_eq_ok hresult
      obtain ⟨op, hop⟩ := Option.isSome_iff_exists.1 htext
      obtain rfl := Operator.ofText?_eq_some_iff.1 hop
      obtain ⟨n, haccounts, hcount⟩ := ih result h
      refine ⟨1 + n, ?_, ?_⟩
      · rw [hevents, Arithmetic.events_chainValue hresult]
        exact (Accounts.applied hresult).append haccounts
      · have hoperation := countP_isOperator_operation op x y result passed.reverse rest
        rw [List.reverse_cons, List.append_assoc] at hcount ⊢
        rw [Nat.add_assoc, hcount]
        exact hoperation.symm
  | case3 => cases h
  | case4 passed text rest hmem ih => simpa using ih h
  | case5 passed value rest ih => simpa using ih h

/-- Passes have applied the operators that they took away. -/
theorem account_passes {levels : List (List String)} :
    ∀ {tokens reduced : List Token},
      (levels.foldlM (fun tokens symbols => reduceLevel symbols tokens) tokens).outcome =
        .ok reduced →
      ∃ n, Accounts
          (levels.foldlM (fun tokens symbols => reduceLevel symbols tokens) tokens).events n 0 ∧
        n + reduced.countP isOperator = tokens.countP isOperator := by
  induction levels with
  | nil =>
      intro tokens reduced h
      obtain rfl : tokens = reduced := Except.ok.inj h
      exact ⟨0, .nil, Nat.zero_add _⟩
  | cons symbols levels ih =>
      intro tokens reduced h
      rw [List.foldlM_cons] at h ⊢
      obtain ⟨next, hnext, hrest, hevents⟩ := Run.exists_of_bind_eq_ok h
      obtain ⟨m, hpass, hm⟩ := account_sweep hnext
      obtain ⟨n, hpasses, hn⟩ := ih hrest
      rw [List.reverse_nil, List.nil_append] at hm
      refine ⟨m + n, ?_, by omega⟩
      rw [hevents]
      exact hpass.append hpasses

/-- The passes over tokens without brackets have applied every operator, when a number is left. -/
theorem account_flatValue {tokens : List Token} {x : Binary64}
    (h : (flatValue tokens).outcome = .ok x) :
    Accounts (flatValue tokens).events (tokens.countP isOperator) 0 := by
  unfold flatValue at h ⊢
  obtain ⟨reduced, hreduced, hend, hevents⟩ := Run.exists_of_bind_eq_ok h
  obtain ⟨n, haccounts, hcount⟩ := account_passes hreduced
  have hsingle : ∃ value, reduced = [number value] := by
    split at hend
    · next value => exact ⟨value, rfl⟩
    · cases hend
  obtain ⟨value, rfl⟩ := hsingle
  have hnone : [number value].countP isOperator = 0 := rfl
  rw [hnone] at hcount
  rw [hevents, ← hcount]
  exact haccounts.append .nil

/-- The operators on a stack of open groups, the innermost one first. -/
def stackedOperators (enclosing : List (List Token)) (current : List Token) : Nat :=
  current.countP isOperator + (enclosing.map (List.countP isOperator)).sum

section Stacked

variable (enclosing : List (List Token)) (current outer : List Token)

theorem stackedOperators_opened :
    stackedOperators (current :: enclosing) [] = stackedOperators enclosing current := by
  simp [stackedOperators]

theorem stackedOperators_closed (value : Binary64) :
    stackedOperators (outer :: enclosing) current =
      current.countP isOperator + stackedOperators enclosing (number value :: outer) := by
  simp [stackedOperators, isOperator, operator?]

theorem stackedOperators_read (token : Token) (tokens : List Token) :
    stackedOperators enclosing (token :: current) + tokens.countP isOperator =
      stackedOperators enclosing current + (token :: tokens).countP isOperator := by
  simp only [stackedOperators, List.countP_cons]
  omega

end Stacked

/-- The events of a group that is closed, with those of what follows it: the operators of its
interior are applied, and the group is replaced. -/
theorem account_closed {current : List Token} {value : Binary64} {events : List Event}
    {operators groups : Nat} (hcurrent : IsFlat current)
    (hvalue : (flatValue current.reverse).outcome = .ok value)
    (h : Accounts events operators groups) :
    Accounts ((flatValue current.reverse).events ++ .grouped current.reverse value :: events)
      (current.countP isOperator + operators) (groups + 1) := by
  have hinterior : (Reduction.value current.reverse).outcome = .ok value := by
    rw [value_of_flat hcurrent.reverse]
    exact hvalue
  have hpasses := account_flatValue hvalue
  have hreplaced := (Accounts.grouped hcurrent.reverse hinterior).append h
  rw [List.countP_reverse] at hpasses
  have hall := hpasses.append hreplaced
  rw [Nat.zero_add, Nat.zero_add, Nat.add_comm 1 groups] at hall
  exact hall

/-- Resolving groups has replaced every group that was open or is opened, and it has applied the
operators that are gone from the stack and from the tokens. -/
theorem account_closeGroups {tokens flat : List Token} :
    ∀ {enclosing : List (List Token)} {current : List Token},
      (∀ group ∈ enclosing, IsFlat group) → IsFlat current →
        (closeGroups flatValue enclosing current tokens).outcome = .ok flat →
          ∃ n, Accounts (closeGroups flatValue enclosing current tokens).events n
              (enclosing.length + tokens.count .opening) ∧
            n + flat.countP isOperator =
              stackedOperators enclosing current + tokens.countP isOperator := by
  have hopening : ¬ isOperator opening = true := by decide
  have hclosing : ¬ isOperator closing = true := by decide
  have hdistinct : closing ≠ opening := by decide
  induction tokens with
  | nil =>
      intro enclosing current _ _ h
      cases enclosing with
      | nil =>
          obtain rfl : current.reverse = flat := by simpa [closeGroups] using h
          exact ⟨0, .nil, by simp [stackedOperators]⟩
      | cons outer enclosing => cases h
  | cons token tokens ih =>
      intro enclosing current henclosing hcurrent h
      rcases token.bracket_cases with rfl | rfl | hother
      · rw [closeGroups_opening] at h ⊢
        obtain ⟨n, haccounts, hcount⟩ :=
          ih (List.forall_mem_cons.2 ⟨hcurrent, henclosing⟩) isFlat_nil h
        refine ⟨n, ?_, ?_⟩
        · rw [List.count_cons_self, ← Nat.add_assoc, Nat.add_right_comm]
          exact haccounts
        · rw [hcount, stackedOperators_opened, List.countP_cons_of_neg hopening]
      · cases enclosing with
        | nil => cases h
        | cons outer enclosing =>
            obtain ⟨houter, henclosing⟩ := List.forall_mem_cons.1 henclosing
            rw [closeGroups_closing] at h ⊢
            obtain ⟨value, hvalue, h, hevents⟩ := Run.exists_of_bind_eq_ok h
            obtain ⟨n, haccounts, hcount⟩ := ih henclosing (isFlat_cons.2 ⟨rfl, houter⟩) h
            have hclosed := stackedOperators_closed enclosing current outer value
            refine ⟨current.countP isOperator + n, ?_, ?_⟩
            · rw [hevents, List.count_cons_of_ne hdistinct, List.length_cons, Nat.add_right_comm]
              exact account_closed hcurrent hvalue haccounts
            · rw [List.countP_cons_of_neg hclosing]
              omega
      · rw [closeGroups_other hother] at h ⊢
        obtain ⟨n, haccounts, hcount⟩ := ih henclosing (isFlat_cons.2 ⟨hother, hcurrent⟩) h
        refine ⟨n, ?_, ?_⟩
        · rw [List.count_cons_of_ne]
          · exact haccounts
          · rintro rfl
            cases hother
        · rw [hcount, stackedOperators_read]

/-- The account of an evaluation that ends with a value: it has applied every operator and replaced
every group. -/
theorem account_value {tokens : List Token} {x : Binary64} (h : (value tokens).outcome = .ok x) :
    Accounts (value tokens).events (tokens.countP isOperator) (tokens.count .opening) := by
  unfold value resolveGroups at h ⊢
  obtain ⟨flat, hflat, hvalue, hevents⟩ := Run.exists_of_bind_eq_ok h
  obtain ⟨n, hgroups, hcount⟩ := account_closeGroups (by simp) isFlat_nil hflat
  have hpasses := account_flatValue hvalue
  have htotal : n + flat.countP isOperator = tokens.countP isOperator := by
    rw [hcount]
    simp [stackedOperators]
  rw [hevents, ← htotal]
  simpa using hgroups.append hpasses

end Reduction

/-! ## Answers -/

namespace Question

/-- A text with a value reports its tokens first, and then its evaluation. -/
theorem events_value {problem : String} {writesProducts : Bool} {x : Binary64}
    (h : (value problem writesProducts).outcome = .ok x) :
    ∃ tokens, Token.read writesProducts (Text.dropBlanks problem.toList) = .ok tokens ∧
      (Reduction.value tokens).outcome = .ok x ∧
      (value problem writesProducts).events = .read tokens :: (Reduction.value tokens).events := by
  unfold value at h ⊢
  simp only at h ⊢
  obtain ⟨tokens, hread, hrest, hevents⟩ := Run.exists_of_bind_eq_ok h
  obtain ⟨-, -, hvalue, hrun⟩ := Run.exists_of_bind_eq_ok hrest
  rw [Run.outcome_reportError] at hread hvalue
  refine ⟨tokens, hread, hvalue, ?_⟩
  rw [hevents, hrun, Run.events_reportError_of_ok hread, Run.events_reportError_of_ok hvalue]
  rfl

/-- A text that is answered with a value reports its evaluation first, and then the answer. -/
theorem events_answer {settings : Settings} {problem : String} {places products : Json}
    {text : String}
    (h : (answer settings ⟨.text problem, places, products⟩).outcome = .ok (.ok text)) :
    ∃ x, (value problem
          (choose products (settings.get Settings.productsName)).isTruthy).outcome = .ok x ∧
      (answer settings ⟨.text problem, places, products⟩).events =
        (value problem (choose products (settings.get Settings.productsName)).isTruthy).events ++
          [.answered problem text] := by
  unfold answer at h ⊢
  simp only at h ⊢
  obtain ⟨outcome, hsettle, hrest, hevents⟩ := Run.exists_of_bind_eq_ok h
  rw [Run.outcome_settle] at hsettle
  obtain rfl := Except.ok.inj hsettle
  rw [hevents, Run.events_settle]
  cases hvalue : (value problem
      (choose products (settings.get Settings.productsName)).isTruthy).outcome with
  | error fault =>
      rw [hvalue] at hrest
      cases hrest
  | ok x =>
      rw [hvalue] at hrest
      simp only at hrest ⊢
      obtain ⟨d, -, hshown, hrun⟩ := Run.exists_of_bind_eq_ok hrest
      refine ⟨x, rfl, ?_⟩
      rw [hrun]
      obtain rfl := Except.ok.inj (Except.ok.inj hshown)
      rfl

end Question

/-- Whenever a text is answered with a value, its log tells the tokens that it was read as, then
steps only, and the answer last. Every operator among the tokens is collapsed in one step and every
bracket group in one, and each step shows the value of what it computes. -/
theorem answer_is_accounted_for {store : Settings.Store} {problem : String}
    {places products : Json} {text : String}
    (h : (Question.answerFrom store ⟨.text problem, places, products⟩).outcome = .ok (.ok text)) :
    ∃ (settings : Settings) (tokens : List Token) (records : List Record),
      store.load = .ok settings ∧
      Token.read (Question.choose products (settings.get Settings.productsName)).isTruthy
        (Text.dropBlanks problem.toList) = .ok tokens ∧
      (Question.answerFrom store ⟨.text problem, places, products⟩).events.map Record.ofEvent =
        ⟨"DEBUG", "Calculator.Tokenizer", "Tokens: " ++ Token.shownList tokens⟩ ::
          (records ++
            [⟨"DEBUG", "Calculator.MathEngine", Text.quoted problem ++ " = " ++ text⟩]) ∧
      Record.Accounts records (tokens.countP Token.isOperator) (tokens.count .opening) := by
  unfold Question.answerFrom at h ⊢
  obtain ⟨settings, hload, hanswer, hevents⟩ := Run.exists_of_bind_eq_ok h
  obtain ⟨x, hvalue, hshown⟩ := Question.events_answer hanswer
  obtain ⟨tokens, hread, hreduced, hrun⟩ := Question.events_value hvalue
  rw [Run.events_ofExcept, List.nil_append, hshown, hrun, List.cons_append] at hevents
  refine ⟨settings, tokens, (Reduction.value tokens).events.map Record.ofEvent, hload, hread, ?_,
    (Reduction.account_value hreduced).records⟩
  rw [hevents, List.map_cons, List.map_append]
  rfl

/-- In `2(3+4)-1` three operators are applied, one of which is not written, and one group is
replaced. -/
theorem thirteen_is_accounted_for :
    (Question.answerFrom .empty ⟨.text "2(3+4)-1", .integer 2, .bool true⟩).outcome =
        .ok (.ok "13") ∧
      (Question.answerFrom .empty
          ⟨.text "2(3+4)-1", .integer 2, .bool true⟩).events.map Record.ofEvent =
        [⟨"DEBUG", "Calculator.Tokenizer",
            "Tokens: [2.0, '*', '(', 3.0, '+', 4.0, ')', '-', 1.0]"⟩,
          ⟨"DEBUG", "Calculator.MathEngine", "collapse (3.0, '+', 4.0) -> 7.0"⟩,
          ⟨"DEBUG", "Calculator.MathEngine", "bracket (3.0, '+', 4.0) -> 7.0"⟩,
          ⟨"DEBUG", "Calculator.MathEngine", "collapse (2.0, '*', 7.0) -> 14.0"⟩,
          ⟨"DEBUG", "Calculator.MathEngine", "collapse (14.0, '-', 1.0) -> 13.0"⟩,
          ⟨"DEBUG", "Calculator.MathEngine", "'2(3+4)-1' = 13"⟩] ∧
      ∃ (settings : Settings) (tokens : List Token) (records : List Record),
        Settings.Store.empty.load = .ok settings ∧
        Token.read (Question.choose (.bool true) (settings.get Settings.productsName)).isTruthy
          (Text.dropBlanks "2(3+4)-1".toList) = .ok tokens ∧
        (Question.answerFrom .empty
            ⟨.text "2(3+4)-1", .integer 2, .bool true⟩).events.map Record.ofEvent =
          ⟨"DEBUG", "Calculator.Tokenizer", "Tokens: " ++ Token.shownList tokens⟩ ::
            (records ++
              [⟨"DEBUG", "Calculator.MathEngine", Text.quoted "2(3+4)-1" ++ " = " ++ "13"⟩]) ∧
        Record.Accounts records (tokens.countP Token.isOperator) (tokens.count .opening) := by
  have hanswer : (Question.answerFrom .empty
      ⟨.text "2(3+4)-1", .integer 2, .bool true⟩).outcome = .ok (.ok "13") := by decide +kernel
  exact ⟨hanswer, by decide +kernel, answer_is_accounted_for hanswer⟩

end Reckoner
