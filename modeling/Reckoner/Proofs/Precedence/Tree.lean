import Reckoner.Arithmetic

/-!
# Parse trees of the precedence grammar

The grammar of expressions has one rule for each level of precedence,

* `sum ::= sum (+|-) product | product`
* `product ::= product (*|/) power | power`
* `power ::= power ^ atom | atom`
* `atom ::= number | '(' sum ')'`

so operators of one level associate to the left. The four parts of speech are the levels 3, 2, 1
and 0 of one family of trees, and an operator of level `k` joins a phrase of level `k + 1` with one
of level `k`: the rules for sums, products and powers are one rule with the level as a parameter.

The value of a tree and the operations that fail in it are defined by recursion on the tree alone.
A failing operation is told apart from the others by where it stands: in which bracket group, at
which level, and where among the tokens.

## Main results

* `failures_eq_nil_iff`: a tree has a value if and only if no operation in it fails.
* `failures_bounds`: where the failing operations of a tree stand.
-/

namespace Reckoner

/-- The level of an operator; the tightest is level 0. -/
def Operator.level : Operator → Nat
  | power => 0
  | product | quotient => 1
  | sum | difference => 2

/-- Parse trees: atoms, powers, products and sums are the levels 0, 1, 2 and 3. -/
inductive ParseTree : Nat → Type where
  | number (value : Binary64) : ParseTree 0
  | group (inner : ParseTree 3) : ParseTree 0
  | single {level : Nat} (part : ParseTree level) : ParseTree (level + 1)
  | node {level : Nat} (left : ParseTree (level + 1)) (op : Operator) (hop : op.level = level)
      (right : ParseTree level) : ParseTree (level + 1)

/-- An operation that fails, and where it stands. -/
structure Failure where
  /-- The position of the bracket that closes the innermost group around the operation; for an
  operation in no group, a position behind all tokens. -/
  close : Nat
  /-- The level of the operator. -/
  level : Nat
  /-- The position of the operator. -/
  position : Nat
  fault : Fault
deriving DecidableEq

namespace Failure

/-- Which of two failures comes first: the one whose group is closed first; in one group the one of
the tighter level; at one level the one further to the left. -/
def Before (f g : Failure) : Prop :=
  f.close < g.close ∨
    f.close = g.close ∧ (f.level < g.level ∨ f.level = g.level ∧ f.position < g.position)

/-- The first of some failures: it comes before all others. -/
structure IsFirst (f : Failure) (failures : List Failure) : Prop where
  mem : f ∈ failures
  before : ∀ g ∈ failures, g = f ∨ f.Before g

theorem before_of_close {f g : Failure} (h : f.close < g.close) : f.Before g := Or.inl h

theorem before_of_level {f g : Failure} (hclose : f.close = g.close) (h : f.level < g.level) :
    f.Before g :=
  Or.inr ⟨hclose, Or.inl h⟩

theorem before_of_position {f g : Failure} (hclose : f.close = g.close)
    (hlevel : f.level ≤ g.level) (h : f.position < g.position) : f.Before g := by
  rcases Nat.lt_or_eq_of_le hlevel with hlt | heq
  · exact before_of_level hclose hlt
  · exact Or.inr ⟨hclose, Or.inr ⟨heq, h⟩⟩

theorem IsFirst.append_right {f : Failure} {xs ys : List Failure} (hf : IsFirst f xs)
    (hys : ∀ g ∈ ys, f.Before g) : IsFirst f (xs ++ ys) := by
  refine ⟨List.mem_append_left _ hf.mem, ?_⟩
  intro g hg
  rcases List.mem_append.1 hg with hg | hg
  · exact hf.before g hg
  · exact Or.inr (hys g hg)

theorem IsFirst.append_left {f : Failure} {xs ys : List Failure} (hf : IsFirst f ys)
    (hxs : ∀ g ∈ xs, f.Before g) : IsFirst f (xs ++ ys) := by
  refine ⟨List.mem_append_right _ hf.mem, ?_⟩
  intro g hg
  rcases List.mem_append.1 hg with hg | hg
  · exact Or.inr (hxs g hg)
  · exact hf.before g hg

theorem isFirst_singleton (f : Failure) : IsFirst f [f] := by
  refine ⟨List.mem_cons_self, ?_⟩
  intro g hg
  exact Or.inl (List.mem_singleton.1 hg)

end Failure

namespace ParseTree

/-- The tokens of a tree in their order. -/
def tokens : {level : Nat} → ParseTree level → List Token
  | _, number value => [.number value]
  | _, group inner => .opening :: (inner.tokens ++ [.closing])
  | _, single part => part.tokens
  | _, node left op _ right => left.tokens ++ .ofOperator op :: right.tokens

theorem length_tokens_group (inner : ParseTree 3) :
    (group inner).tokens.length = inner.tokens.length + 1 + 1 := by
  simp [tokens]

theorem length_tokens_node {level : Nat} (left : ParseTree (level + 1)) (op : Operator)
    (hop : op.level = level) (right : ParseTree level) :
    (node left op hop right).tokens.length = left.tokens.length + (right.tokens.length + 1) := by
  simp [tokens]

/-- What an operation gives: the arithmetic of the chain of one operator and its two operands. -/
def operation (op : Operator) (x y : Binary64) : Except Fault Binary64 :=
  (Arithmetic.chainValue [.number x, .ofOperator op, .number y]).outcome

/-- The value of a tree, if every operation in it has one. -/
def value? : {level : Nat} → ParseTree level → Option Binary64
  | _, number value => some value
  | _, group inner => inner.value?
  | _, single part => part.value?
  | _, node left op _ right =>
      left.value?.bind fun x => right.value?.bind fun y => (operation op x y).toOption

/-- The failure of one operation whose operands both have values; an operation without them does
not take place. -/
def failureOf (close position : Nat) (op : Operator) (x? y? : Option Binary64) : List Failure :=
  match x?, y? with
  | some x, some y =>
      match operation op x y with
      | .ok _ => []
      | .error fault => [⟨close, op.level, position, fault⟩]
  | _, _ => []

/-- The operations of a tree that fail. The tokens of the tree begin at `start`, and the innermost
group around the tree is closed at `close`. -/
def failures : (start close : Nat) → {level : Nat} → ParseTree level → List Failure
  | _, _, _, number _ => []
  | start, _, _, group inner => inner.failures (start + 1) (start + 1 + inner.tokens.length)
  | start, close, _, single part => part.failures start close
  | start, close, _, node left op _ right =>
      left.failures start close ++
        (right.failures (start + left.tokens.length + 1) close ++
          failureOf close (start + left.tokens.length) op left.value? right.value?)

/-! ## Where operations fail -/

theorem mem_failureOf {close position : Nat} {op : Operator} {x? y? : Option Binary64} {f : Failure}
    (hf : f ∈ failureOf close position op x? y?) :
    ∃ x y fault, x? = some x ∧ y? = some y ∧ operation op x y = .error fault ∧
      f = ⟨close, op.level, position, fault⟩ := by
  unfold failureOf at hf
  split at hf
  · next x y =>
    split at hf
    · cases hf
    · next fault hfault => exact ⟨x, y, fault, rfl, rfl, hfault, List.mem_singleton.1 hf⟩
  · cases hf

/-- The failing operations of a tree lie among its tokens. Those outside its bracket groups have the
levels below that of the tree; the groups of the others are closed among the tokens of the tree. -/
theorem failures_bounds {level : Nat} (t : ParseTree level) :
    ∀ start close : Nat, ∀ f ∈ t.failures start close,
      (start ≤ f.position ∧ f.position < start + t.tokens.length) ∧
        (f.close = close ∧ f.level < level ∨
          start ≤ f.close ∧ f.close < start + t.tokens.length) := by
  induction t with
  | number value =>
      intro start close f hf
      cases hf
  | group inner ih =>
      intro start close f hf
      have hin := ih (start + 1) (start + 1 + inner.tokens.length) f hf
      rw [length_tokens_group]
      omega
  | single part ih =>
      intro start close f hf
      have hin := ih start close f hf
      simp only [tokens]
      omega
  | @node level left op hop right ihleft ihright =>
      intro start close f hf
      rw [length_tokens_node]
      simp only [failures, List.mem_append] at hf
      rcases hf with hf | hf | hf
      · have hin := ihleft start close f hf
        omega
      · have hin := ihright (start + left.tokens.length + 1) close f hf
        omega
      · obtain ⟨x, y, fault, -, -, -, rfl⟩ := mem_failureOf hf
        have hlevel : op.level < level + 1 := by omega
        refine ⟨⟨?_, ?_⟩, Or.inl ⟨rfl, hlevel⟩⟩
        · show start ≤ start + left.tokens.length
          omega
        · show start + left.tokens.length < _
          omega

/-- A tree has a value if and only if no operation in it fails. -/
theorem failures_eq_nil_iff {level : Nat} (t : ParseTree level) :
    ∀ start close : Nat, t.failures start close = [] ↔ ∃ x, t.value? = some x := by
  induction t with
  | number value =>
      intro start close
      simp [failures, value?]
  | group inner ih =>
      intro start close
      exact ih _ _
  | single part ih =>
      intro start close
      exact ih _ _
  | node left op hop right ihleft ihright =>
      intro start close
      simp only [failures, List.append_eq_nil_iff, value?, Option.bind_eq_some_iff]
      rw [ihleft, ihright]
      constructor
      · rintro ⟨⟨x, hx⟩, ⟨y, hy⟩, hown⟩
        simp only [failureOf, hx, hy] at hown
        cases hresult : operation op x y with
        | error fault => simp [hresult] at hown
        | ok result => exact ⟨result, x, hx, y, hy, by simp [hresult, Except.toOption]⟩
      · rintro ⟨result, x, hx, y, hy, hresult⟩
        refine ⟨⟨x, hx⟩, ⟨y, hy⟩, ?_⟩
        cases hop : operation op x y with
        | error fault => simp [hop, Except.toOption] at hresult
        | ok result => simp [failureOf, hx, hy, hop]

end ParseTree

end Reckoner
