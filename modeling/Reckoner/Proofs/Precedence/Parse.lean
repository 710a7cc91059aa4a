import Reckoner.Proofs.Grammar.Phrase
import Reckoner.Proofs.Precedence.Tree

/-!
# Every phrase has a parse tree

A phrase knows nothing of precedence. Read from left to right it grows a parse tree at its right
edge: a further operator goes down that edge to its own level, and what stands there becomes its
left operand.

## Main results

* `exists_tree`: the tokens of a phrase are those of a parse tree.
-/

namespace Reckoner

/-- The level of a part of speech in the grammar with precedence. -/
abbrev Part.level : Part → Nat
  | operand => 0
  | expression => 3

namespace ParseTree

/-- An atom is a phrase of every level. -/
theorem exists_lift (atom : ParseTree 0) (level : Nat) :
    ∃ t : ParseTree level, t.tokens = atom.tokens := by
  induction level with
  | zero => exact ⟨atom, rfl⟩
  | succ level ih =>
      obtain ⟨t, ht⟩ := ih
      exact ⟨single t, ht⟩

/-- A tree grows by an operator of a tighter level and an atom. -/
theorem exists_snoc {level : Nat} (t : ParseTree level) (op : Operator) (hop : op.level < level)
    (atom : ParseTree 0) :
    ∃ grown : ParseTree level, grown.tokens = t.tokens ++ .ofOperator op :: atom.tokens := by
  induction t with
  | number value => cases hop
  | group inner _ => cases hop
  | @single level part ih =>
      by_cases hlevel : op.level = level
      · obtain ⟨right, hright⟩ := exists_lift atom level
        exact ⟨node (single part) op hlevel right, by simp [tokens, hright]⟩
      · obtain ⟨grown, hgrown⟩ := ih (by omega)
        exact ⟨single grown, hgrown⟩
  | @node level left op' hop' right _ ih =>
      by_cases hlevel : op.level = level
      · obtain ⟨last, hlast⟩ := exists_lift atom level
        exact ⟨node (node left op' hop' right) op hlevel last, by simp [tokens, hlast]⟩
      · obtain ⟨grown, hgrown⟩ := ih (by omega)
        exact ⟨node left op' hop' grown, by simp [tokens, hgrown]⟩

end ParseTree

namespace Phrase

open ParseTree

theorem exists_tree {part : Part} (phrase : Phrase Binary64 Operator part) :
    ∃ t : ParseTree part.level, t.tokens = phrase.tokens := by
  induction phrase with
  | leaf value => exact ⟨number value, rfl⟩
  | group inner ih =>
      obtain ⟨t, ht⟩ := ih
      exact ⟨ParseTree.group t, by simp [ParseTree.tokens, ht]⟩
  | single operand ih =>
      obtain ⟨atom, hatom⟩ := ih
      obtain ⟨t, ht⟩ := exists_lift atom 3
      exact ⟨t, ht.trans hatom⟩
  | join left op right ihleft ihright =>
      obtain ⟨t, ht⟩ := ihleft
      obtain ⟨atom, hatom⟩ := ihright
      have hop : op.level < 3 := by cases op <;> decide
      obtain ⟨grown, hgrown⟩ := exists_snoc t op hop atom
      refine ⟨grown, hgrown.trans ?_⟩
      show t.tokens ++ .ofOperator op :: atom.tokens = left.tokens ++ .ofOperator op :: right.tokens
      rw [ht, hatom]

end Phrase

end Reckoner
