import Reckoner.Proofs.Precedence.Tree
import Reckoner.Reduction

/-!
# Passes over the levels of a tree

The evaluation of tokens without brackets is three passes over the whole chain, one for each level
of precedence. What is left of a tree before a pass is again a chain: the operations of the levels
already done are replaced by their values, and so are the bracket groups.

A pass works on whatever stands around the chain, so its two ways to end are stated with the tokens
to its left and to its right left open.

## Main results

* `sweep_remaining`: a pass ends with the leftmost failing operation of its level, or it leaves
  what remains of the tree above this level (`PassEnds`).
* `flatValue_remaining`: the three passes end with the first failing operation, or with the value of
  the tree.
-/

namespace Reckoner

namespace Operator

/-- The texts of the operators of a level. -/
def symbolsAt (level : Nat) : List String := levels.getD level []

theorem text_mem_symbolsAt {k : Nat} (hk : k < 3) (op : Operator) :
    op.text ∈ symbolsAt k ↔ op.level = k := by
  obtain rfl | rfl | rfl : k = 0 ∨ k = 1 ∨ k = 2 := by omega
  all_goals cases op <;> decide

end Operator

namespace Reduction

/-! ## What a pass does to a piece of a chain -/

/-- The pass turns this piece into that one, whatever stands around it. -/
def SweepsTo (symbols : List String) (piece result : List Token) : Prop :=
  ∀ passed rest : List Token,
    (sweep symbols passed (piece ++ rest)).outcome =
      (sweep symbols (result.reverse ++ passed) rest).outcome

/-- The pass fails in this piece, whatever stands around it. -/
def SweepFails (symbols : List String) (piece : List Token) (fault : Fault) : Prop :=
  ∀ passed rest : List Token, (sweep symbols passed (piece ++ rest)).outcome = .error fault

section Pieces

variable {symbols : List String} {piece result next nextResult : List Token} {fault : Fault}

theorem sweepsTo_number (value : Binary64) : SweepsTo symbols [.number value] [.number value] := by
  intro passed rest
  exact congrArg Run.outcome (sweep_number symbols passed value rest)

theorem sweepsTo_other {op : Operator} (h : ¬ op.text ∈ symbols) :
    SweepsTo symbols [.ofOperator op] [.ofOperator op] := by
  intro passed rest
  exact congrArg Run.outcome (sweep_other h passed rest)

theorem SweepsTo.append (h : SweepsTo symbols piece result)
    (hnext : SweepsTo symbols next nextResult) :
    SweepsTo symbols (piece ++ next) (result ++ nextResult) := by
  intro passed rest
  rw [List.append_assoc, h, hnext, List.reverse_append, List.append_assoc]

theorem SweepFails.append (h : SweepFails symbols piece fault) (next : List Token) :
    SweepFails symbols (piece ++ next) fault := by
  intro passed rest
  rw [List.append_assoc, h]

theorem SweepsTo.append_fails (h : SweepsTo symbols piece result)
    (hnext : SweepFails symbols next fault) : SweepFails symbols (piece ++ next) fault := by
  intro passed rest
  rw [List.append_assoc, h, hnext]

/-- A piece that has become a number is the left operand of an operator that follows. -/
theorem SweepsTo.outcome_operator {op : Operator} {x y : Binary64} (hop : op.text ∈ symbols)
    (h : SweepsTo symbols piece [.number x]) (passed rest : List Token) :
    (sweep symbols passed ((piece ++ .ofOperator op :: [.number y]) ++ rest)).outcome =
      (ParseTree.operation op x y).bind fun value =>
        (sweep symbols (.number value :: passed) rest).outcome := by
  rw [List.append_assoc, h]
  exact outcome_sweep_operator hop (.number x) (.number y) passed rest

theorem outcome_reduceLevel_of_sweepsTo (h : SweepsTo symbols piece result) :
    (reduceLevel symbols piece).outcome = .ok result := by
  have hend := h [] []
  rw [List.append_nil, List.append_nil] at hend
  rw [reduceLevel, hend]
  simp [sweep]

theorem outcome_reduceLevel_of_sweepFails (h : SweepFails symbols piece fault) :
    (reduceLevel symbols piece).outcome = .error fault := by
  have hend := h [] []
  rw [List.append_nil] at hend
  exact hend

end Pieces

/-- The value of tokens without brackets, pass by pass. -/
theorem outcome_flatValue (tokens : List Token) :
    (flatValue tokens).outcome =
      (reduceLevel (Operator.symbolsAt 0) tokens).outcome.bind fun powers =>
        (reduceLevel (Operator.symbolsAt 1) powers).outcome.bind fun products =>
          (reduceLevel (Operator.symbolsAt 2) products).outcome.bind fun sums =>
            match sums with
            | [.number value] => .ok value
            | _ => .error (.invalidEquation sums) := by
  have hpasses : flatValue tokens =
      reduceLevel (Operator.symbolsAt 0) tokens >>= fun powers =>
        reduceLevel (Operator.symbolsAt 1) powers >>= fun products =>
          reduceLevel (Operator.symbolsAt 2) products >>= fun sums =>
            match sums with
            | [.number value] => pure value
            | _ => Run.fail (.invalidEquation sums) := by
    simp only [flatValue, Operator.levels, List.foldlM_cons, List.foldlM_nil, bind_assoc,
      pure_bind]
    rfl
  rw [hpasses]
  simp only [Run.outcome_bind]
  congr 1
  funext powers
  congr 1
  funext products
  congr 1
  funext sums
  split <;> rfl

end Reduction

namespace ParseTree

open Reduction

/-- The value of a tree; NaN for a tree without one. -/
def result {level : Nat} (t : ParseTree level) : Binary64 := t.value?.getD .nan

/-- What is left of a tree when its groups and its operations below level `k` are replaced by their
values. -/
def remaining (k : Nat) : {level : Nat} → ParseTree level → List Token
  | _, number value => [.number value]
  | _, group inner => [.number inner.result]
  | _, single part => part.remaining k
  | _, node left op hop right =>
      if op.level < k then [.number (node left op hop right).result]
      else left.remaining k ++ .ofOperator op :: right.remaining k

/-- Nothing but its value is left of a tree of a level that is done. -/
theorem remaining_of_le {k level : Nat} (t : ParseTree level) (h : level ≤ k) :
    t.remaining k = [.number t.result] := by
  induction t with
  | number value => rfl
  | group inner => rfl
  | single part ih => exact ih (by omega)
  | node left op hop right =>
      have hlt : op.level < k := by omega
      rw [remaining, if_pos hlt]

theorem result_of_failures_eq_nil {level start close : Nat} {t : ParseTree level}
    (h : t.failures start close = []) : t.value? = some t.result := by
  obtain ⟨x, hx⟩ := (failures_eq_nil_iff t start close).1 h
  rw [result, hx]
  rfl

/-- The operation at the top of a tree, when all others have their values: it fails, or it is the
value of the tree. -/
theorem sweep_operation {k start close : Nat} {symbols : List String} {left : ParseTree (k + 1)}
    {op : Operator} {hop : op.level = k} {right : ParseTree k} (hmem : op.text ∈ symbols)
    (hleft : left.failures start close = [])
    (hright : right.failures (start + left.tokens.length + 1) close = [])
    (hsweep : SweepsTo symbols (left.remaining k) (left.remaining (k + 1))) :
    (∃ f, (node left op hop right).failures start close = [f] ∧ f.level = k ∧
        SweepFails symbols ((node left op hop right).remaining k) f.fault) ∨
      ((node left op hop right).failures start close = [] ∧
        SweepsTo symbols ((node left op hop right).remaining k)
          ((node left op hop right).remaining (k + 1))) := by
  have hx := result_of_failures_eq_nil hleft
  have hy := result_of_failures_eq_nil hright
  have hpiece : (node left op hop right).remaining k =
      left.remaining k ++ .ofOperator op :: [.number right.result] := by
    rw [remaining, if_neg (by omega), remaining_of_le right (Nat.le_refl k)]
  rw [remaining_of_le left (Nat.le_refl (k + 1))] at hsweep
  have hdone : (node left op hop right).remaining (k + 1) =
      [.number (node left op hop right).result] :=
    remaining_of_le _ (Nat.le_refl (k + 1))
  have hstep := fun passed rest =>
    hsweep.outcome_operator (y := right.result) hmem passed rest
  cases hvalue : operation op left.result right.result with
  | error fault =>
      refine Or.inl ⟨⟨close, op.level, start + left.tokens.length, fault⟩, ?_, hop, ?_⟩
      · simp [failures, failureOf, hleft, hright, hx, hy, hvalue]
      · intro passed rest
        rw [hpiece, hstep, hvalue]
        rfl
  | ok value =>
      have hnode : (node left op hop right).value? = some value := by
        simp [value?, hx, hy, hvalue, Except.toOption]
      have hresult : (node left op hop right).result = value := by
        rw [result, hnode]
        rfl
      refine Or.inr ⟨?_, ?_⟩
      · simp [failures, failureOf, hleft, hright, hx, hy, hvalue]
      · intro passed rest
        rw [hpiece, hstep, hvalue, hdone, hresult]
        rfl

/-- The tighter levels and the groups of a tree are done: its failures are those of its own chain,
at level `k` or above. -/
def Awaits (k start close : Nat) {level : Nat} (t : ParseTree level) : Prop :=
  ∀ f ∈ t.failures start close, f.close = close ∧ k ≤ f.level

/-- The pass of level `k` ends at the leftmost failing operation of its level, which then is the
first of all, or it completes its level. -/
def PassEnds (k start close : Nat) {level : Nat} (t : ParseTree level) : Prop :=
  (∃ f : Failure, f.IsFirst (t.failures start close) ∧ f.level = k ∧
      SweepFails (Operator.symbolsAt k) (t.remaining k) f.fault) ∨
    ((∀ f ∈ t.failures start close, k < f.level) ∧
      SweepsTo (Operator.symbolsAt k) (t.remaining k) (t.remaining (k + 1)))

section Pass

variable {k start close level : Nat} {left : ParseTree (level + 1)} {op : Operator}
  {hop : op.level = level} {right : ParseTree level}

theorem Awaits.left_of_node (h : (node left op hop right).Awaits k start close) :
    left.Awaits k start close := by
  intro f hf
  exact h f (List.mem_append_left _ hf)

theorem Awaits.right_of_node (h : (node left op hop right).Awaits k start close) :
    right.Awaits k (start + left.tokens.length + 1) close := by
  intro f hf
  exact h f (List.mem_append_right _ (List.mem_append_left _ hf))

/-- No operation of a tree below its level can fail, when that level is done. -/
theorem Awaits.failures_eq_nil {t : ParseTree level} (h : t.Awaits k start close)
    (hlevel : level ≤ k) (hclose : start + t.tokens.length ≤ close) :
    t.failures start close = [] := by
  rw [List.eq_nil_iff_forall_not_mem]
  intro f hf
  have hin := failures_bounds t start close f hf
  have hown := h f hf
  omega

/-- A tree of a level that is done is a number, and the pass leaves it. -/
theorem passEnds_of_le {t : ParseTree level} (h : t.Awaits k start close) (hlevel : level ≤ k)
    (hclose : start + t.tokens.length ≤ close) : t.PassEnds k start close := by
  refine Or.inr ⟨?_, ?_⟩
  · rw [h.failures_eq_nil hlevel hclose]
    intro f hf
    cases hf
  · rw [remaining_of_le t hlevel, remaining_of_le t (Nat.le_succ_of_le hlevel)]
    exact sweepsTo_number _

/-- A failure to the left of an operator comes before those of the same level from there on. -/
theorem isFirst_node {f : Failure} (hfirst : f.IsFirst (left.failures start close))
    (hlevel : f.level = k) (hawaits : (node left op hop right).Awaits k start close) :
    f.IsFirst ((node left op hop right).failures start close) := by
  refine hfirst.append_right ?_
  intro g hg
  have hin := failures_bounds left start close f hfirst.mem
  have hown := hawaits.left_of_node f hfirst.mem
  have hother := hawaits g (List.mem_append_right _ hg)
  have hposition : start + left.tokens.length ≤ g.position := by
    rcases List.mem_append.1 hg with hg | hg
    · have hin := failures_bounds right (start + left.tokens.length + 1) close g hg
      omega
    · obtain ⟨x, y, fault, -, -, -, rfl⟩ := mem_failureOf hg
      exact Nat.le_refl _
  exact Failure.before_of_position (by omega) (by omega) (by omega)

/-- The pass works off the operations of a chain of its level, from left to right. -/
theorem PassEnds.node_of_eq (hk : level < 3) (hleft : left.PassEnds level start close)
    (hawaits : (node left op hop right).Awaits level start close)
    (hclose : start + (node left op hop right).tokens.length ≤ close) :
    (node left op hop right).PassEnds level start close := by
  have hlength := length_tokens_node left op hop right
  rcases hleft with ⟨f, hfirst, hlevel, hfails⟩ | ⟨habove, hsweep⟩
  · refine Or.inl ⟨f, isFirst_node hfirst hlevel hawaits, hlevel, ?_⟩
    rw [remaining, if_neg (by omega)]
    exact hfails.append _
  · have hmem : op.text ∈ Operator.symbolsAt level := (Operator.text_mem_symbolsAt hk op).2 hop
    have hright : right.failures (start + left.tokens.length + 1) close = [] :=
      hawaits.right_of_node.failures_eq_nil (Nat.le_refl level) (by omega)
    have habove : left.Awaits (level + 1) start close := by
      intro f hf
      exact ⟨(hawaits.left_of_node f hf).1, habove f hf⟩
    have hnone : left.failures start close = [] :=
      habove.failures_eq_nil (Nat.le_refl _) (by omega)
    rcases sweep_operation hmem hnone hright hsweep with
      ⟨f, hf, hlevel, hfails⟩ | ⟨hnone, hsweep⟩
    · exact Or.inl ⟨f, hf ▸ f.isFirst_singleton, hlevel, hfails⟩
    · exact Or.inr ⟨by simp [hnone], hsweep⟩

/-- The pass leaves a looser operator in its place and works on both sides of it. -/
theorem PassEnds.node_of_lt (hk : k < level) (hleft : left.PassEnds k start close)
    (hright : right.PassEnds k (start + left.tokens.length + 1) close)
    (hawaits : (node left op hop right).Awaits k start close)
    (hclose : start + (node left op hop right).tokens.length ≤ close) :
    (node left op hop right).PassEnds k start close := by
  have hlength := length_tokens_node left op hop right
  have hlow : k < 3 := by
    have htop : op.level < 3 := by cases op <;> decide
    omega
  have hother : ¬ op.text ∈ Operator.symbolsAt k := by
    rw [Operator.text_mem_symbolsAt hlow]
    omega
  have hpieces : ∀ j : Nat, j ≤ k + 1 → (node left op hop right).remaining j =
      left.remaining j ++ ([.ofOperator op] ++ right.remaining j) := by
    intro j hj
    rw [remaining, if_neg (by omega)]
    rfl
  rw [PassEnds, hpieces k (by omega), hpieces (k + 1) (Nat.le_refl _)]
  rcases hleft with ⟨f, hfirst, hlevel, hfails⟩ | ⟨haboveLeft, hsweepLeft⟩
  · exact Or.inl ⟨f, isFirst_node hfirst hlevel hawaits, hlevel, hfails.append _⟩
  rcases hright with ⟨f, hfirst, hlevel, hfails⟩ | ⟨haboveRight, hsweepRight⟩
  · have hown := hawaits.right_of_node f hfirst.mem
    refine Or.inl ⟨f, (hfirst.append_right ?_).append_left ?_, hlevel,
      hsweepLeft.append_fails ((sweepsTo_other hother).append_fails hfails)⟩
    · intro g hg
      obtain ⟨x, y, fault, -, -, -, rfl⟩ := mem_failureOf hg
      exact Failure.before_of_level hown.1 (by simp only; omega)
    · intro g hg
      have hleft := hawaits.left_of_node g hg
      have habove := haboveLeft g hg
      exact Failure.before_of_level (by omega) (by omega)
  · refine Or.inr ⟨?_, hsweepLeft.append ((sweepsTo_other hother).append hsweepRight)⟩
    intro g hg
    rcases List.mem_append.1 hg with hg | hg
    · exact haboveLeft g hg
    rcases List.mem_append.1 hg with hg | hg
    · exact haboveRight g hg
    · obtain ⟨x, y, fault, -, -, -, rfl⟩ := mem_failureOf hg
      exact Nat.lt_of_lt_of_eq hk hop.symm

end Pass

/-- One pass over what is left of a tree when the tighter levels are done. -/
theorem sweep_remaining {k : Nat} (hk : k < 3) {level : Nat} (t : ParseTree level) :
    ∀ start close : Nat, start + t.tokens.length ≤ close → t.Awaits k start close →
      t.PassEnds k start close := by
  induction t with
  | number value =>
      intro start close hclose hawaits
      exact passEnds_of_le hawaits (Nat.zero_le k) hclose
  | group inner _ =>
      intro start close hclose hawaits
      exact passEnds_of_le hawaits (Nat.zero_le k) hclose
  | single part ih =>
      intro start close hclose hawaits
      exact ih start close hclose hawaits
  | @node level left op hop right ihleft ihright =>
      intro start close hclose hawaits
      have hlength := length_tokens_node left op hop right
      rcases Nat.lt_trichotomy level k with hlevel | rfl | hlevel
      · exact passEnds_of_le hawaits hlevel hclose
      · have hleft := ihleft start close (by omega) hawaits.left_of_node
        exact hleft.node_of_eq hk hawaits hclose
      · have hleft := ihleft start close (by omega) hawaits.left_of_node
        have hright := ihright (start + left.tokens.length + 1) close (by omega)
          hawaits.right_of_node
        exact hleft.node_of_lt hlevel hright hawaits hclose

/-- A pass over a tree by itself. -/
theorem outcome_reduceLevel_remaining {k : Nat} (hk : k < 3) {level start close : Nat}
    {t : ParseTree level} (hawaits : t.Awaits k start close)
    (hclose : start + t.tokens.length ≤ close) :
    (∃ f : Failure, f.IsFirst (t.failures start close) ∧
        (reduceLevel (Operator.symbolsAt k) (t.remaining k)).outcome = .error f.fault) ∨
      (t.Awaits (k + 1) start close ∧
        (reduceLevel (Operator.symbolsAt k) (t.remaining k)).outcome =
          .ok (t.remaining (k + 1))) := by
  rcases sweep_remaining hk t start close hclose hawaits with
    ⟨f, hfirst, -, hfails⟩ | ⟨habove, hsweep⟩
  · exact Or.inl ⟨f, hfirst, outcome_reduceLevel_of_sweepFails hfails⟩
  · refine Or.inr ⟨?_, outcome_reduceLevel_of_sweepsTo hsweep⟩
    intro f hf
    exact ⟨(hawaits f hf).1, habove f hf⟩

/-- The three passes over a tree whose groups are resolved. -/
theorem flatValue_remaining (t : ParseTree 3) (start close : Nat)
    (hclose : start + t.tokens.length ≤ close)
    (hgroups : ∀ f ∈ t.failures start close, f.close = close) :
    (∃ f : Failure, f.IsFirst (t.failures start close) ∧
        (flatValue (t.remaining 0)).outcome = .error f.fault) ∨
      (t.failures start close = [] ∧ (flatValue (t.remaining 0)).outcome = .ok t.result) := by
  have hatoms : t.Awaits 0 start close := fun f hf => ⟨hgroups f hf, Nat.zero_le _⟩
  rw [outcome_flatValue]
  rcases outcome_reduceLevel_remaining (by decide) hatoms hclose with
    ⟨f, hfirst, hfails⟩ | ⟨hpowers, hpass⟩
  · exact Or.inl ⟨f, hfirst, by rw [hfails]; rfl⟩
  rw [hpass, Except.bind]
  rcases outcome_reduceLevel_remaining (by decide) hpowers hclose with
    ⟨f, hfirst, hfails⟩ | ⟨hproducts, hpass⟩
  · exact Or.inl ⟨f, hfirst, by rw [hfails]; rfl⟩
  rw [hpass, Except.bind]
  rcases outcome_reduceLevel_remaining (by decide) hproducts hclose with
    ⟨f, hfirst, hfails⟩ | ⟨hsums, hpass⟩
  · exact Or.inl ⟨f, hfirst, by rw [hfails]; rfl⟩
  rw [hpass, Except.bind, remaining_of_le t (Nat.le_refl 3)]
  exact Or.inr ⟨hsums.failures_eq_nil (Nat.le_refl 3) hclose, rfl⟩

end ParseTree

end Reckoner
