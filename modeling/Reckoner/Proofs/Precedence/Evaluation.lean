import Reckoner.Proofs.Precedence.Levels

/-!
# Evaluation agrees with the parse tree

Brackets are resolved from left to right with a stack of open groups, so groups are evaluated in
the order in which they are closed. The induction is on the tree, with the stack below it and the
tokens behind it left open: reading the tokens of a tree either fails with the first failure inside
its groups, or it puts on the stack what remains of the tree without its groups.

## Main results

* `value_tokens_of_failures`: the evaluation of the tokens of a tree ends with the first failing
  operation, or with the value of the tree.
* `value_tokens_eq_reference`: the same, with the order of the failures spelled out.
-/

namespace Reckoner

namespace Reduction

/-- Resolving brackets turns this piece into that one, whatever stands around it. -/
def ResolvesTo (piece result : List Token) : Prop :=
  ∀ (enclosing : List (List Token)) (current rest : List Token),
    (closeGroups flatValue enclosing current (piece ++ rest)).outcome =
      (closeGroups flatValue enclosing (result.reverse ++ current) rest).outcome

/-- A group of this piece has no value, whatever stands around it. -/
def ResolutionFails (piece : List Token) (fault : Fault) : Prop :=
  ∀ (enclosing : List (List Token)) (current rest : List Token),
    (closeGroups flatValue enclosing current (piece ++ rest)).outcome = .error fault

section Pieces

variable {piece result next nextResult : List Token} {fault : Fault}

theorem resolvesTo_of_not_bracket {token : Token} (h : token.isBracket = false) :
    ResolvesTo [token] [token] := by
  intro enclosing current rest
  exact congrArg Run.outcome (closeGroups_other h flatValue enclosing current rest)

theorem ResolvesTo.append (h : ResolvesTo piece result) (hnext : ResolvesTo next nextResult) :
    ResolvesTo (piece ++ next) (result ++ nextResult) := by
  intro enclosing current rest
  rw [List.append_assoc, h, hnext, List.reverse_append, List.append_assoc]

theorem ResolutionFails.append (h : ResolutionFails piece fault) (next : List Token) :
    ResolutionFails (piece ++ next) fault := by
  intro enclosing current rest
  rw [List.append_assoc, h]

theorem ResolvesTo.append_fails (h : ResolvesTo piece result)
    (hnext : ResolutionFails next fault) : ResolutionFails (piece ++ next) fault := by
  intro enclosing current rest
  rw [List.append_assoc, h, hnext]

/-- A failure inside a group ends the evaluation before the group is closed. -/
theorem ResolutionFails.group (h : ResolutionFails piece fault) :
    ResolutionFails (.opening :: (piece ++ [.closing])) fault := by
  intro enclosing current rest
  rw [List.cons_append, closeGroups_opening, List.append_assoc, h]

/-- A group whose inside is resolved is evaluated when it is closed. -/
theorem ResolvesTo.outcome_group (h : ResolvesTo piece result) (enclosing : List (List Token))
    (current rest : List Token) :
    (closeGroups flatValue enclosing current
        ((.opening :: (piece ++ [.closing])) ++ rest)).outcome =
      (flatValue result).outcome.bind fun value =>
        (closeGroups flatValue enclosing (.number value :: current) rest).outcome := by
  rw [List.cons_append, closeGroups_opening, List.append_assoc, h]
  exact (outcome_closeGroups_closing flatValue current enclosing (result.reverse ++ []) rest).trans
    (by rw [List.append_nil, List.reverse_reverse])

end Pieces

end Reduction

namespace ParseTree

open Reduction

/-- Resolving the brackets of a tree fails with the first failure inside a group, which then is the
first of all, or nothing fails inside a group and the groups are replaced by their values. -/
def Resolves (start close : Nat) {level : Nat} (t : ParseTree level) : Prop :=
  (∃ f : Failure, f.IsFirst (t.failures start close) ∧ f.close < start + t.tokens.length ∧
      ResolutionFails t.tokens f.fault) ∨
    ((∀ f ∈ t.failures start close, f.close = close) ∧ ResolvesTo t.tokens (t.remaining 0))

/-- A group is evaluated when it is closed, after the groups inside it. -/
theorem Resolves.group {inner : ParseTree 3} {start : Nat}
    (h : inner.Resolves (start + 1) (start + 1 + inner.tokens.length)) (close : Nat) :
    (group inner).Resolves start close := by
  have hlength := length_tokens_group inner
  rcases h with ⟨f, hfirst, hclose, hfails⟩ | ⟨hgroups, hresolve⟩
  · exact Or.inl ⟨f, hfirst, by omega, hfails.group⟩
  rcases flatValue_remaining inner (start + 1) (start + 1 + inner.tokens.length)
    (Nat.le_refl _) hgroups with ⟨f, hfirst, hfails⟩ | ⟨hnone, hvalue⟩
  · have hown := hgroups f hfirst.mem
    refine Or.inl ⟨f, hfirst, by omega, ?_⟩
    intro enclosing current rest
    rw [tokens, hresolve.outcome_group, hfails]
    rfl
  · refine Or.inr ⟨?_, ?_⟩
    · intro f hf
      rw [failures, hnone] at hf
      cases hf
    · intro enclosing current rest
      rw [tokens, hresolve.outcome_group, hvalue]
      rfl

/-- The groups to the left of an operator are closed before those to its right, and the operation
itself takes place after all of them. -/
theorem Resolves.node {level start close : Nat} {left : ParseTree (level + 1)} {op : Operator}
    {hop : op.level = level} {right : ParseTree level} (hleft : left.Resolves start close)
    (hright : right.Resolves (start + left.tokens.length + 1) close)
    (hclose : start + (node left op hop right).tokens.length ≤ close) :
    (node left op hop right).Resolves start close := by
  have hlength := length_tokens_node left op hop right
  have hpiece : (ParseTree.node left op hop right).tokens =
      left.tokens ++ ([.ofOperator op] ++ right.tokens) := rfl
  have hoperator : ResolvesTo [.ofOperator op] [.ofOperator op] :=
    resolvesTo_of_not_bracket (Token.isBracket_ofOperator op)
  have hown : ∀ g ∈ failureOf close (start + left.tokens.length) op left.value? right.value?,
      g.close = close := by
    intro g hg
    obtain ⟨x, y, fault, -, -, -, rfl⟩ := mem_failureOf hg
    rfl
  rcases hleft with ⟨f, hfirst, hfclose, hfails⟩ | ⟨hgroupsLeft, hresolveLeft⟩
  · refine Or.inl ⟨f, hfirst.append_right ?_, by omega, by rw [hpiece]; exact hfails.append _⟩
    intro g hg
    rcases List.mem_append.1 hg with hg | hg
    · have hin := failures_bounds right (start + left.tokens.length + 1) close g hg
      exact Failure.before_of_close (by omega)
    · exact Failure.before_of_close (by rw [hown g hg]; omega)
  rcases hright with ⟨f, hfirst, hfclose, hfails⟩ | ⟨hgroupsRight, hresolveRight⟩
  · refine Or.inl ⟨f, (hfirst.append_right ?_).append_left ?_, by omega, ?_⟩
    · intro g hg
      exact Failure.before_of_close (by rw [hown g hg]; omega)
    · intro g hg
      exact Failure.before_of_close (by rw [hgroupsLeft g hg]; omega)
    · rw [hpiece]
      exact hresolveLeft.append_fails (hoperator.append_fails hfails)
  · refine Or.inr ⟨?_, by rw [hpiece]; exact hresolveLeft.append (hoperator.append hresolveRight)⟩
    intro g hg
    rcases List.mem_append.1 hg with hg | hg
    · exact hgroupsLeft g hg
    rcases List.mem_append.1 hg with hg | hg
    · exact hgroupsRight g hg
    · exact hown g hg

theorem resolve_tokens {level : Nat} (t : ParseTree level) :
    ∀ start close : Nat, start + t.tokens.length ≤ close → t.Resolves start close := by
  induction t with
  | number value =>
      intro start close _
      exact Or.inr ⟨by simp [failures], resolvesTo_of_not_bracket rfl⟩
  | group inner ih =>
      intro start close _
      exact (ih (start + 1) (start + 1 + inner.tokens.length) (Nat.le_refl _)).group close
  | single part ih =>
      intro start close hclose
      exact ih start close hclose
  | node left op hop right ihleft ihright =>
      intro start close hclose
      have hlength := length_tokens_node left op hop right
      have hleft := ihleft start close (by omega)
      have hright := ihright (start + left.tokens.length + 1) close (by omega)
      exact hleft.node hright hclose

/-- The evaluation of the tokens of a tree. -/
theorem value_tokens_of_failures (t : ParseTree 3) :
    (t.failures 0 t.tokens.length = [] ∧ (Reduction.value t.tokens).outcome = .ok t.result) ∨
      ∃ f : Failure, f.IsFirst (t.failures 0 t.tokens.length) ∧
        (Reduction.value t.tokens).outcome = .error f.fault := by
  have hvalue : (Reduction.value t.tokens).outcome =
      (closeGroups flatValue [] [] (t.tokens ++ [])).outcome.bind
        fun flat => (flatValue flat).outcome := by
    rw [Reduction.value, Run.outcome_bind, List.append_nil]
    rfl
  rw [hvalue]
  rcases resolve_tokens t 0 t.tokens.length (by omega) with
    ⟨f, hfirst, -, hfails⟩ | ⟨hgroups, hresolve⟩
  · exact Or.inr ⟨f, hfirst, by rw [hfails]; rfl⟩
  have hflat : (closeGroups flatValue [] [] (t.tokens ++ [])).outcome = .ok (t.remaining 0) := by
    rw [hresolve]
    simp [closeGroups]
  rw [hflat, Except.bind]
  rcases flatValue_remaining t 0 t.tokens.length (by omega) hgroups with
    ⟨f, hfirst, hfails⟩ | ⟨hnone, hok⟩
  · exact Or.inr ⟨f, hfirst, hfails⟩
  · exact Or.inl ⟨hnone, hok⟩

/-- The tokens of a parse tree are evaluated to the value of the tree whenever no operation in it
fails. Otherwise the evaluation ends with the fault of one failing operation: the one whose
innermost group is closed first, and in that group the one of the tightest level, and at that level
the leftmost one. -/
theorem value_tokens_eq_reference (t : ParseTree 3) :
    (t.failures 0 t.tokens.length = [] ∧
        ∃ x, t.value? = some x ∧ (Reduction.value t.tokens).outcome = .ok x) ∨
      (t.value? = none ∧
        ∃ f ∈ t.failures 0 t.tokens.length,
          (∀ g ∈ t.failures 0 t.tokens.length, g = f ∨ f.Before g) ∧
            (Reduction.value t.tokens).outcome = .error f.fault) := by
  rcases value_tokens_of_failures t with ⟨hnone, hok⟩ | ⟨f, hfirst, hfails⟩
  · exact Or.inl ⟨hnone, t.result, result_of_failures_eq_nil hnone, hok⟩
  · refine Or.inr ⟨?_, f, hfirst.mem, hfirst.before, hfails⟩
    cases hvalue : t.value? with
    | none => rfl
    | some x =>
        have hnone := (failures_eq_nil_iff t 0 t.tokens.length).2 ⟨x, hvalue⟩
        exact absurd hfirst.mem (by simp [hnone])

end ParseTree

end Reckoner
