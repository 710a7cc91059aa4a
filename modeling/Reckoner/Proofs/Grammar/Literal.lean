import Mathlib.Data.List.TakeWhile
import Reckoner.Token.Literal

/-!
# The language of literals

A literal is any number of digits, perhaps a point, and at least one digit. The reader cuts the
longest literal off a text; where neither a digit nor a point follows, that is the only one.

## Main results

* `inLanguage_of_split?`: what is cut off is a literal.
* `split?_row_append`: cutting depends on no more of a text than nothing goes on with.
* `split?_append`: a literal that neither a digit nor a point follows is cut off whole.
* `split?_eq_some_iff`, `split?_eq_none_iff`: what is cut off is the longest literal that the text
  begins with, and nothing is cut off where it begins with none.
-/

namespace Reckoner.Literal

/-- The language `[0-9]*\.?[0-9]+`. -/
def InLanguage (cs : List Char) : Prop :=
  ∃ whole point fraction : List Char, cs = whole ++ (point ++ fraction) ∧
    (∀ c ∈ whole, c.isDigit = true) ∧ (point = [] ∨ point = ['.']) ∧
      fraction ≠ [] ∧ ∀ c ∈ fraction, c.isDigit = true

/-- A literal is a row of digits, or it has a point with a row of digits behind it. -/
theorem inLanguage_iff {cs : List Char} :
    InLanguage cs ↔
      (cs ≠ [] ∧ ∀ c ∈ cs, c.isDigit = true) ∨
        ∃ whole fraction : List Char, cs = whole ++ '.' :: fraction ∧
          (∀ c ∈ whole, c.isDigit = true) ∧ fraction ≠ [] ∧ ∀ c ∈ fraction, c.isDigit = true := by
  constructor
  · rintro ⟨whole, point, fraction, rfl, hwhole, rfl | rfl, hne, hfraction⟩
    · refine Or.inl ⟨by simp [hne], ?_⟩
      intro c hc
      rcases List.mem_append.1 hc with hc | hc
      · exact hwhole c hc
      · exact hfraction c hc
    · exact Or.inr ⟨whole, fraction, rfl, hwhole, hne, hfraction⟩
  · rintro (⟨hne, hdigits⟩ | ⟨whole, fraction, rfl, hwhole, hne, hfraction⟩)
    · exact ⟨[], [], cs, rfl, by simp, Or.inl rfl, hne, hdigits⟩
    · exact ⟨whole, ['.'], fraction, rfl, hwhole, Or.inr rfl, hne, hfraction⟩

/-- A literal begins with a digit or with a point. -/
theorem exists_head_of_inLanguage {cs : List Char} (h : InLanguage cs) :
    ∃ c rest, cs = c :: rest ∧ (c.isDigit = true ∨ c = '.') := by
  rcases inLanguage_iff.1 h with ⟨hne, hdigits⟩ | ⟨whole, fraction, rfl, hwhole, -, -⟩
  · cases cs with
    | nil => exact absurd rfl hne
    | cons c rest => exact ⟨c, rest, rfl, Or.inl (hdigits c List.mem_cons_self)⟩
  · cases whole with
    | nil => exact ⟨'.', fraction, rfl, Or.inr rfl⟩
    | cons c whole => exact ⟨c, _, rfl, Or.inl (hwhole c List.mem_cons_self)⟩

theorem isDigit_of_mem_takeWhile {cs : List Char} :
    ∀ c ∈ cs.takeWhile Char.isDigit, c.isDigit = true := by
  intro c hc
  exact List.all_eq_true.1 (List.all_takeWhile (p := Char.isDigit) (l := cs)) c hc

/-- What is cut off a text is a literal. -/
theorem inLanguage_of_split? {cs literal rest : List Char}
    (h : split? cs = some (literal, rest)) : InLanguage literal := by
  rw [inLanguage_iff]
  simp only [split?] at h
  split at h
  · next hpoint =>
    simp only [Option.some.injEq, Prod.mk.injEq] at h
    obtain ⟨rfl, -⟩ := h
    exact Or.inr ⟨_, _, rfl, isDigit_of_mem_takeWhile, hpoint.2, isDigit_of_mem_takeWhile⟩
  · split at h
    · next hwhole =>
      simp only [Option.some.injEq, Prod.mk.injEq] at h
      obtain ⟨rfl, -⟩ := h
      exact Or.inl ⟨hwhole, isDigit_of_mem_takeWhile⟩
    · cases h

/-- The characters that literals consist of. -/
def isLiteralChar (c : Char) : Bool := c.isDigit || c == '.'

theorem isLiteralChar_of_inLanguage {literal : List Char} (h : InLanguage literal) :
    ∀ c ∈ literal, isLiteralChar c = true := by
  intro c hc
  obtain ⟨whole, point, fraction, rfl, hwhole, hpoint, -, hfraction⟩ := h
  simp only [isLiteralChar, Bool.or_eq_true, beq_iff_eq]
  rcases List.mem_append.1 hc with hc | hc
  · exact Or.inl (hwhole c hc)
  · rcases List.mem_append.1 hc with hc | hc
    · rcases hpoint with rfl | rfl
      · cases hc
      · exact Or.inr (List.mem_singleton.1 hc)
    · exact Or.inl (hfraction c hc)

/-- Nothing that could go on with a literal. -/
def EndsLiteral (rest : List Char) : Prop :=
  ∀ c, rest.head? = some c → c.isDigit = false ∧ c ≠ '.'

theorem endsLiteral_iff {rest : List Char} :
    EndsLiteral rest ↔ ∀ c, rest.head? = some c → isLiteralChar c = false := by
  simp [EndsLiteral, isLiteralChar]

theorem EndsLiteral.head?_ne {rest : List Char} (h : EndsLiteral rest) : rest.head? ≠ some '.' :=
  fun hpoint => (h '.' hpoint).2 rfl

section Rows

variable {digits rest : List Char}

/-- The digits at the start of a text are the same whatever follows it that is no digit. -/
theorem takeWhile_append_rest (cs : List Char)
    (hrest : ∀ c, rest.head? = some c → c.isDigit = false) :
    (cs ++ rest).takeWhile Char.isDigit = cs.takeWhile Char.isDigit := by
  have hnone : rest.takeWhile Char.isDigit = [] := by
    cases rest with
    | nil => rfl
    | cons c rest => simp [hrest c rfl]
  rw [List.takeWhile_append]
  split
  · next hall =>
    rw [hnone, List.append_nil]
    exact ((List.takeWhile_prefix _).eq_of_length hall).symm
  · rfl

theorem dropWhile_append_rest (cs : List Char)
    (hrest : ∀ c, rest.head? = some c → c.isDigit = false) :
    (cs ++ rest).dropWhile Char.isDigit = cs.dropWhile Char.isDigit ++ rest := by
  have hall : rest.dropWhile Char.isDigit = rest := by
    cases rest with
    | nil => rfl
    | cons c rest => simp [hrest c rfl]
  rw [List.dropWhile_append]
  split
  · next hempty => rw [hall, List.isEmpty_iff.1 hempty, List.nil_append]
  · rfl

theorem takeWhile_digits (hdigits : ∀ c ∈ digits, c.isDigit = true)
    (hrest : ∀ c, rest.head? = some c → c.isDigit = false) :
    (digits ++ rest).takeWhile Char.isDigit = digits := by
  rw [takeWhile_append_rest digits hrest, List.takeWhile_eq_self_iff.2 hdigits]

theorem dropWhile_digits (hdigits : ∀ c ∈ digits, c.isDigit = true)
    (hrest : ∀ c, rest.head? = some c → c.isDigit = false) :
    (digits ++ rest).dropWhile Char.isDigit = rest := by
  rw [dropWhile_append_rest digits hrest, List.dropWhile_eq_nil_iff.2 hdigits, List.nil_append]

/-- What begins with a point begins with no digit. -/
theorem isDigit_of_head?_point :
    ∀ c, ('.' :: rest).head? = some c → c.isDigit = false := by
  intro c hc
  obtain rfl : '.' = c := Option.some.inj hc
  rfl

end Rows

/-- What nothing goes on with behind a row plays no part in cutting the row. -/
theorem split?_row_append (row : List Char) {after : List Char} (hafter : EndsLiteral after) :
    split? (row ++ after) = (split? row).map fun parts => (parts.1, parts.2 ++ after) := by
  have hdigit : ∀ c, after.head? = some c → c.isDigit = false := fun c hc => (hafter c hc).1
  simp only [split?, takeWhile_append_rest _ hdigit, dropWhile_append_rest _ hdigit]
  rcases row.dropWhile Char.isDigit with _ | ⟨c, behind⟩
  · simp only [List.nil_append, hafter.head?_ne, List.head?_nil, reduceCtorEq, false_and, if_false]
    split <;> rfl
  · simp only [List.cons_append, List.head?_cons, List.drop_succ_cons, List.drop_zero,
      takeWhile_append_rest _ hdigit, dropWhile_append_rest _ hdigit]
    split
    · rfl
    · split <;> rfl

/-- A literal is cut off itself as a whole. -/
theorem split?_of_inLanguage {literal : List Char} (h : InLanguage literal) :
    split? literal = some (literal, []) := by
  rcases inLanguage_iff.1 h with ⟨hne, hdigits⟩ | ⟨whole, fraction, rfl, hwhole, hne, hfraction⟩
  · simp [split?, List.takeWhile_eq_self_iff.2 hdigits, List.dropWhile_eq_nil_iff.2 hdigits, hne]
  · simp [split?, takeWhile_digits hwhole isDigit_of_head?_point,
      dropWhile_digits hwhole isDigit_of_head?_point, List.takeWhile_eq_self_iff.2 hfraction,
      List.dropWhile_eq_nil_iff.2 hfraction, hne]

/-- A literal that nothing goes on with is cut off whole. -/
theorem split?_append {literal rest : List Char} (hliteral : InLanguage literal)
    (hrest : EndsLiteral rest) : split? (literal ++ rest) = some (literal, rest) := by
  rw [split?_row_append literal hrest, split?_of_inLanguage hliteral]
  rfl

/-! ## The longest literal -/

/-- The longest beginning of a text that is a literal. -/
structure IsLongest (literal text : List Char) : Prop where
  starts : literal <+: text
  inLanguage : InLanguage literal
  longest : ∀ other, other <+: text → InLanguage other → other.length ≤ literal.length

/-- A text that begins with no literal. -/
def StartsNone (text : List Char) : Prop := ∀ literal, literal <+: text → ¬ InLanguage literal

/-- A digit starts a literal. -/
theorem isDigit_of_startsNone {c : Char} {rest : List Char} (h : StartsNone (c :: rest)) :
    c.isDigit = false := by
  by_contra hdigit
  apply h [c] ⟨rest, rfl⟩
  exact inLanguage_iff.2 (Or.inl ⟨by simp, by simpa using hdigit⟩)

/-- No literal that the text begins with is longer than what is cut off. -/
theorem exists_split?_of_prefix {other text : List Char} (hother : other <+: text)
    (h : InLanguage other) :
    ∃ literal rest, split? text = some (literal, rest) ∧ other.length ≤ literal.length := by
  obtain ⟨tail, rfl⟩ := hother
  rcases inLanguage_iff.1 h with ⟨hne, hdigits⟩ | ⟨whole, fraction, rfl, hwhole, hne, hfraction⟩
  · -- the digits of the text go on at least as far, and a point behind them only adds to that
    have hrow : (other ++ tail).takeWhile Char.isDigit = other ++ tail.takeWhile Char.isDigit :=
      List.takeWhile_append_of_pos hdigits
    have hrowne : other ++ tail.takeWhile Char.isDigit ≠ [] := by simp [hne]
    simp only [split?, hrow, if_pos hrowne]
    split
    all_goals exact ⟨_, _, rfl, by simp⟩
  · have hrow : (fraction ++ tail).takeWhile Char.isDigit =
        fraction ++ tail.takeWhile Char.isDigit := List.takeWhile_append_of_pos hfraction
    have hrowne : fraction ++ tail.takeWhile Char.isDigit ≠ [] := by simp [hne]
    rw [List.append_assoc, List.cons_append]
    simp only [split?, takeWhile_digits hwhole isDigit_of_head?_point,
      dropWhile_digits hwhole isDigit_of_head?_point, List.head?_cons, List.drop_succ_cons,
      List.drop_zero, hrow, true_and, if_pos hrowne]
    exact ⟨_, _, rfl, by simp⟩

/-- What is cut off a text is the longest literal that it begins with. -/
theorem split?_eq_some_iff {text literal rest : List Char} :
    split? text = some (literal, rest) ↔ IsLongest literal text ∧ text = literal ++ rest := by
  constructor
  · intro h
    have happend := append_of_split? h
    refine ⟨⟨⟨rest, happend⟩, inLanguage_of_split? h, ?_⟩, happend.symm⟩
    intro other hother hlanguage
    obtain ⟨longest, behind, hsplit, hle⟩ := exists_split?_of_prefix hother hlanguage
    obtain ⟨rfl, -⟩ : literal = longest ∧ rest = behind := by simpa [h] using hsplit
    exact hle
  · rintro ⟨hlongest, htext⟩
    obtain ⟨longest, behind, hsplit, hle⟩ :=
      exists_split?_of_prefix hlongest.starts hlongest.inLanguage
    have happend := append_of_split? hsplit
    have hge := hlongest.longest longest ⟨behind, happend⟩ (inLanguage_of_split? hsplit)
    obtain ⟨rfl, rfl⟩ := List.append_inj (happend.trans htext) (by omega)
    exact hsplit

/-- Nothing is cut off a text that begins with no literal. -/
theorem split?_eq_none_iff {text : List Char} : split? text = none ↔ StartsNone text := by
  constructor
  · intro h literal hprefix hlanguage
    obtain ⟨longest, behind, hsplit, -⟩ := exists_split?_of_prefix hprefix hlanguage
    rw [h] at hsplit
    cases hsplit
  · intro h
    cases hsplit : split? text with
    | none => rfl
    | some parts =>
        exact absurd (inLanguage_of_split? hsplit) (h _ ⟨_, append_of_split? hsplit⟩)

end Reckoner.Literal
