import Reckoner.Proofs.Grammar.Spelling

/-!
# Reading alike

Two texts may be refused for the same reason at different places. What their readings have in common
is then the kind and the code of the fault, while its data, a position or a number, may differ.

## Main results

* `Alike.bind`: outcomes that are alike stay alike through a next step that keeps them so.
* `cut_alike`: cutting does not depend on the position it starts from.
-/

namespace Reckoner

/-- Two outcomes that differ in what the relation admits, or in the data that their faults show. -/
inductive Alike {α β : Type} (related : α → β → Prop) : Except Fault α → Except Fault β → Prop
  | ok {a : α} {b : β} (h : related a b) : Alike related (.ok a) (.ok b)
  | error {f g : Fault} (hkind : f.kind = g.kind) (hcode : f.code = g.code) :
      Alike related (.error f) (.error g)

namespace Alike

variable {α β γ δ : Type} {related : α → β → Prop} {result : γ → δ → Prop}

theorem refl (x : Except Fault α) : Alike Eq x x := by
  cases x with
  | ok a => exact .ok rfl
  | error fault => exact .error rfl rfl

/-- Where one outcome is a result, the other one is the same. -/
theorem eq_ok {a : α} {x : Except Fault α} (h : Alike Eq (.ok a) x) : x = .ok a := by
  cases h with
  | ok heq => rw [heq]

theorem bind {x : Except Fault α} {y : Except Fault β} {f : α → Except Fault γ}
    {g : β → Except Fault δ} (h : Alike related x y)
    (hnext : ∀ a b, related a b → Alike result (f a) (g b)) : Alike result (x >>= f) (y >>= g) := by
  cases h with
  | ok hrelated => exact hnext _ _ hrelated
  | error hkind hcode => exact .error hkind hcode

theorem map {x : Except Fault α} {y : Except Fault β} {f : α → γ} {g : β → δ}
    (h : Alike related x y) (hfg : ∀ a b, related a b → result (f a) (g b)) :
    Alike result (x.map f) (y.map g) := by
  cases h with
  | ok hrelated => exact .ok (hfg _ _ hrelated)
  | error hkind hcode => exact .error hkind hcode

end Alike

namespace Token

/-! ## Cutting -/

/-- Cutting does not depend on the position it starts from, which only a fault can show. -/
theorem cut_alike (text : List Char) (p q : Nat) : Alike Eq (cut p text) (cut q text) := by
  match text with
  | [] =>
      rw [cut, cut]
      exact .ok rfl
  | c :: rest =>
      cases hkind : CharKind.ofChar c with
      | operator =>
          rw [cut_mark (Or.inl hkind), cut_mark (Or.inl hkind)]
          exact (cut_alike rest _ _).map fun _ _ h => congrArg _ h
      | bracket =>
          rw [cut_mark (Or.inr hkind), cut_mark (Or.inr hkind)]
          exact (cut_alike rest _ _).map fun _ _ h => congrArg _ h
      | blank =>
          have hblank := CharKind.isBlank_of_ofChar hkind
          rw [cut_blank hblank, cut_blank hblank]
          exact cut_alike rest _ _
      | other =>
          rw [cut_other hkind, cut_other hkind]
          exact .error rfl rfl
      | digit | decimalPoint =>
          rw [cut_literal (by simp [hkind]), cut_literal (by simp [hkind])]
          cases hsplit : Literal.split? (c :: rest) with
          | none => exact .error rfl rfl
          | some parts =>
              obtain ⟨literal, after⟩ := parts
              have hlength : after.length < rest.length + 1 := Literal.length_lt_of_split? hsplit
              simp only
              split
              · exact .error rfl rfl
              · split
                · exact (cut_alike after _ _).map fun _ _ h => congrArg _ h
                · exact .error rfl rfl
termination_by text.length

end Token

end Reckoner
