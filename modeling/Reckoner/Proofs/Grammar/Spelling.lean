import Mathlib.Data.List.Chain
import Reckoner.Proofs.Grammar.Literal
import Reckoner.Token.Reading

/-!
# Spelling

A text is spelled by words, which are unsigned numerals, operators and brackets, with any blanks
between them and at its ends. Cutting a text into tokens finds its words, provided that no two
numerals are neighbours: those would run together, or only a blank would keep them apart.

## Main results

* `cut_of_spells`: a text is cut into the words that spell it.
* `exists_words_of_cut`: a text that can be cut is spelled by words.
-/

namespace Reckoner

/-! ## Characters -/

namespace Operator

/-- The character of an operator. -/
def char : Operator → Char
  | power => '^'
  | product => '*'
  | quotient => '/'
  | sum => '+'
  | difference => '-'

theorem singleton_char (op : Operator) : String.singleton op.char = op.text := by
  cases op <;> decide

end Operator

namespace CharKind

theorem ofChar_operator (op : Operator) : ofChar op.char = operator := by
  cases op <;> decide

/-- The characters of one kind are those of the operators. -/
theorem exists_operator_of_ofChar {c : Char} (h : ofChar c = operator) :
    ∃ op : Operator, op.char = c := by
  unfold ofChar at h
  split at h
  · next hmem =>
    simp only [List.contains_eq_mem, decide_eq_true_eq, List.mem_cons, List.not_mem_nil,
      or_false] at hmem
    rcases hmem with rfl | rfl | rfl | rfl | rfl
    · exact ⟨.power, rfl⟩
    · exact ⟨.product, rfl⟩
    · exact ⟨.quotient, rfl⟩
    · exact ⟨.sum, rfl⟩
    · exact ⟨.difference, rfl⟩
  · repeat' split at h
    all_goals cases h

theorem bracket_of_ofChar {c : Char} (h : ofChar c = bracket) : c = '(' ∨ c = ')' := by
  unfold ofChar at h
  split at h
  · cases h
  · split at h
    · next hmem => simpa using hmem
    · repeat' split at h
      all_goals cases h

/-- The characters of operators and brackets. -/
def marks : List Char := ['^', '*', '/', '+', '-', '(', ')']

/-- A mark is neither a digit nor a blank. -/
theorem of_mem_marks {c : Char} (h : c ∈ marks) : c.isDigit = false ∧ Text.isBlank c = false := by
  simp only [marks, List.mem_cons, List.not_mem_nil, or_false] at h
  rcases h with rfl | rfl | rfl | rfl | rfl | rfl | rfl <;> decide

theorem ofChar_of_mem_marks {c : Char} (h : c ∈ marks) :
    ofChar c = operator ∨ ofChar c = bracket := by
  simp only [marks, List.mem_cons, List.not_mem_nil, or_false] at h
  rcases h with rfl | rfl | rfl | rfl | rfl | rfl | rfl <;> decide

/-- The kind of a character that is neither an operator nor a bracket. -/
theorem ofChar_of_not_mark {c : Char} (h : c ∉ marks) :
    ofChar c =
      if c.isDigit then digit else if c = '.' then decimalPoint
      else if Text.isBlank c then blank else other := by
  simp only [marks, List.mem_cons, List.not_mem_nil, or_false, not_or] at h
  simp [ofChar, h]

/-- A digit is of no other kind. -/
theorem ofChar_of_isDigit {c : Char} (h : c.isDigit = true) : ofChar c = digit := by
  rw [ofChar_of_not_mark, if_pos h]
  intro hmark
  rw [(of_mem_marks hmark).1] at h
  cases h

/-- A digit is no blank. -/
theorem isBlank_of_isDigit {c : Char} (h : c.isDigit = true) : Text.isBlank c = false := by
  simp only [Char.isDigit, Bool.and_eq_true, decide_eq_true_eq, ge_iff_le] at h
  have hlow : 48 ≤ c.toNat := h.1
  have hhigh : c.toNat ≤ 57 := h.2
  have htab : ¬ c.toNat < 0x9 := by omega
  have hreturn : ¬ c.toNat ≤ 0xd := by omega
  have hseparator : ¬ c.toNat < 0x1c := by omega
  have hspace : ¬ c.toNat ≤ 0x20 := by omega
  have hnext : c.toNat < 0x85 := by omega
  simp [Text.isBlank, Text.blankRanges, Text.inRanges, htab, hreturn, hseparator, hspace, hnext]

/-- A blank is of no other kind. -/
theorem ofChar_of_isBlank {c : Char} (h : Text.isBlank c = true) : ofChar c = blank := by
  have hdigit : ¬ c.isDigit = true := by
    intro hc
    rw [isBlank_of_isDigit hc] at h
    cases h
  have hpoint : c ≠ '.' := by
    rintro rfl
    revert h
    decide
  rw [ofChar_of_not_mark, if_neg hdigit, if_neg hpoint, if_pos h]
  intro hmark
  rw [(of_mem_marks hmark).2] at h
  cases h

theorem isBlank_of_ofChar {c : Char} (h : ofChar c = blank) : Text.isBlank c = true := by
  unfold ofChar at h
  repeat' split at h
  all_goals first | assumption | cases h

/-- The characters of the last kind are those that belong to no token and are no blanks. -/
theorem ofChar_eq_other_iff {c : Char} :
    ofChar c = other ↔
      c ∉ marks ∧ c.isDigit = false ∧ c ≠ '.' ∧ Text.isBlank c = false := by
  constructor
  · intro h
    have hmark : c ∉ marks := by
      intro hmem
      rcases ofChar_of_mem_marks hmem with hkind | hkind <;>
      · rw [hkind] at h
        cases h
    rw [ofChar_of_not_mark hmark] at h
    split_ifs at h with hdigit hpoint hblank
    exact ⟨hmark, by simpa using hdigit, hpoint, by simpa using hblank⟩
  · rintro ⟨hmark, hdigit, hpoint, hblank⟩
    simp [ofChar_of_not_mark hmark, hdigit, hpoint, hblank]

end CharKind

namespace Literal

/-- The kinds of the characters of literals. -/
theorem isLiteralChar_iff {c : Char} :
    isLiteralChar c = true ↔ CharKind.ofChar c = .digit ∨ CharKind.ofChar c = .decimalPoint := by
  constructor
  · intro h
    rcases Bool.or_eq_true_iff.1 h with hdigit | hpoint
    · exact Or.inl (CharKind.ofChar_of_isDigit hdigit)
    · obtain rfl : c = '.' := by simpa using hpoint
      exact Or.inr rfl
  · intro h
    by_cases hmark : c ∈ CharKind.marks
    · rcases CharKind.ofChar_of_mem_marks hmark with hkind | hkind <;>
      · rw [hkind] at h
        simp at h
    · rw [CharKind.ofChar_of_not_mark hmark] at h
      by_contra hnot
      simp only [isLiteralChar, Bool.or_eq_true, beq_iff_eq, not_or] at hnot
      rw [if_neg hnot.1, if_neg hnot.2] at h
      split at h <;> simp at h

/-- A blank is no character of a literal. -/
theorem isLiteralChar_of_isBlank {c : Char} (h : Text.isBlank c = true) :
    isLiteralChar c = false := by
  have hkind := CharKind.ofChar_of_isBlank h
  by_contra hliteral
  simp [isLiteralChar_iff, hkind] at hliteral

theorem isBlank_of_isLiteralChar {c : Char} (h : isLiteralChar c = true) :
    Text.isBlank c = false := by
  by_contra hblank
  rw [isLiteralChar_of_isBlank (by simpa using hblank)] at h
  cases h

end Literal

/-! ## Words -/

/-- A literal of a finite number. -/
structure Numeral where
  digits : List Char
  inLanguage : Literal.InLanguage digits
  isFinite : (Literal.value digits).isFinite = true

namespace Numeral

def value (numeral : Numeral) : Binary64 := Literal.value numeral.digits

end Numeral

/-- A symbol of a text. A sign is written like the operator. -/
inductive Word where
  | numeral (numeral : Numeral)
  | operator (op : Operator)
  | opening
  | closing

namespace Word

def spelling : Word → List Char
  | numeral n => n.digits
  | operator op => [op.char]
  | opening => ['(']
  | closing => [')']

/-- The token of a word, a numeral without a sign. -/
def token : Word → Token
  | numeral n => .number n.value
  | operator op => .ofOperator op
  | opening => .opening
  | closing => .closing

def isNumeral : Word → Bool
  | numeral _ => true
  | _ => false

/-- Not two numerals. -/
def Apart (left right : Word) : Prop := left.isNumeral = false ∨ right.isNumeral = false

end Word

/-- The text is spelled by the words, with blanks between them and at both ends. -/
inductive Spells : List Word → List Char → Prop
  | nil {blanks : List Char} (hblanks : ∀ c ∈ blanks, Text.isBlank c = true) : Spells [] blanks
  | cons {blanks text : List Char} {word : Word} {words : List Word}
      (hblanks : ∀ c ∈ blanks, Text.isBlank c = true) (hrest : Spells words text) :
      Spells (word :: words) (blanks ++ (word.spelling ++ text))

/-! ## Cutting a text into words -/

namespace Token

theorem cut_blank {c : Char} (h : Text.isBlank c = true) (position : Nat) (rest : List Char) :
    cut position (c :: rest) = cut (position + 1) rest := by
  rw [cut, CharKind.ofChar_of_isBlank h]

theorem cut_mark {c : Char} (h : CharKind.ofChar c = .operator ∨ CharKind.ofChar c = .bracket)
    (position : Nat) (rest : List Char) :
    cut position (c :: rest) =
      (cut (position + 1) rest).map (symbol (String.singleton c) :: ·) := by
  rw [cut]
  rcases h with h | h <;> rw [h]

theorem cut_literal {c : Char} (h : CharKind.ofChar c = .digit ∨ CharKind.ofChar c = .decimalPoint)
    (position : Nat) (rest : List Char) :
    cut position (c :: rest) =
      match Literal.split? (c :: rest) with
      | none => .error (.lonePoint position)
      | some (literal, after) =>
          if after.head? = some '.' then .error (.secondPoint (String.ofList literal))
          else if (Literal.value literal).isFinite then
            (cut (position + literal.length) after).map (number (Literal.value literal) :: ·)
          else .error (.literalTooBig (String.ofList literal)) := by
  rw [cut]
  rcases h with h | h <;>
  · rw [h]
    simp only
    split
    · next hnone => rw [hnone]
    · next hsome => rw [hsome]

theorem cut_other {c : Char} (h : CharKind.ofChar c = .other) (position : Nat) (rest : List Char) :
    cut position (c :: rest) = .error (.invalidCharacter c) := by
  rw [cut, h]

theorem cut_operator (op : Operator) (position : Nat) (rest : List Char) :
    cut position (op.char :: rest) = (cut (position + 1) rest).map (ofOperator op :: ·) := by
  rw [cut_mark (Or.inl (CharKind.ofChar_operator op)), op.singleton_char]
  rfl

theorem cut_opening (position : Nat) (rest : List Char) :
    cut position ('(' :: rest) = (cut (position + 1) rest).map (opening :: ·) :=
  cut_mark (Or.inr rfl) position rest

theorem cut_closing (position : Nat) (rest : List Char) :
    cut position (')' :: rest) = (cut (position + 1) rest).map (closing :: ·) :=
  cut_mark (Or.inr rfl) position rest

theorem cut_blanks {blanks : List Char} (h : ∀ c ∈ blanks, Text.isBlank c = true)
    (rest : List Char) :
    ∀ position : Nat, cut position (blanks ++ rest) = cut (position + blanks.length) rest := by
  induction blanks with
  | nil =>
      intro position
      rfl
  | cons c blanks ih =>
      intro position
      rw [List.cons_append, cut_blank (h c List.mem_cons_self),
        ih (fun d hd => h d (List.mem_cons_of_mem _ hd)), List.length_cons]
      congr 1
      omega

/-- What cutting does where a text begins with a literal. -/
theorem cut_of_split? {text literal after : List Char}
    (h : Literal.split? text = some (literal, after)) (position : Nat) :
    cut position text =
      if after.head? = some '.' then .error (.secondPoint (String.ofList literal))
      else if (Literal.value literal).isFinite then
        (cut (position + literal.length) after).map (number (Literal.value literal) :: ·)
      else .error (.literalTooBig (String.ofList literal)) := by
  obtain ⟨c, rest, hliteral, hc⟩ :=
    Literal.exists_head_of_inLanguage (Literal.inLanguage_of_split? h)
  have hkind := Literal.isLiteralChar_iff.1 (show Literal.isLiteralChar c = true by
    simpa [Literal.isLiteralChar] using hc)
  obtain rfl : c :: (rest ++ after) = text := by
    rw [← Literal.append_of_split? h, hliteral, List.cons_append]
  rw [cut_literal hkind, h]

/-- A numeral that nothing goes on with is cut off whole. -/
theorem cut_numeral (numeral : Numeral) {rest : List Char} (hrest : Literal.EndsLiteral rest)
    (position : Nat) :
    cut position (numeral.digits ++ rest) =
      (cut (position + numeral.digits.length) rest).map (number numeral.value :: ·) := by
  rw [cut_of_split? (Literal.split?_append numeral.inLanguage hrest), if_neg hrest.head?_ne,
    if_pos numeral.isFinite]
  rfl

/-- A word is cut off whole, a numeral if nothing goes on with it. -/
theorem cut_word (word : Word) {rest : List Char}
    (hrest : word.isNumeral = true → Literal.EndsLiteral rest) (position : Nat) :
    cut position (word.spelling ++ rest) =
      (cut (position + word.spelling.length) rest).map (word.token :: ·) := by
  cases word with
  | numeral n => exact cut_numeral n (hrest rfl) position
  | operator op => exact cut_operator op position rest
  | opening => exact cut_opening position rest
  | closing => exact cut_closing position rest

end Token

namespace Spells

/-- Blanks in front of a text make no difference. -/
theorem append_blanks {words : List Word} {blanks text : List Char}
    (hblanks : ∀ c ∈ blanks, Text.isBlank c = true) (h : Spells words text) :
    Spells words (blanks ++ text) := by
  cases h with
  | nil hrest => exact .nil (List.forall_mem_append.2 ⟨hblanks, hrest⟩)
  | cons hfirst hrest =>
      rw [← List.append_assoc]
      exact .cons (List.forall_mem_append.2 ⟨hblanks, hfirst⟩) hrest

/-- What does not begin with a numeral goes on with no literal. -/
theorem endsLiteral {words : List Word} {text : List Char} (h : Spells words text)
    (hwords : ∀ word, words.head? = some word → word.isNumeral = false) :
    Literal.EndsLiteral text := by
  rw [Literal.endsLiteral_iff]
  intro c hc
  cases h with
  | nil hblanks => exact Literal.isLiteralChar_of_isBlank (hblanks c (List.mem_of_mem_head? hc))
  | @cons blanks text word words hblanks hrest =>
      cases blanks with
      | cons d blanks =>
          obtain rfl : d = c := Option.some.inj hc
          exact Literal.isLiteralChar_of_isBlank (hblanks d List.mem_cons_self)
      | nil =>
          cases word with
          | numeral n => cases hwords _ rfl
          | operator op =>
              obtain rfl : op.char = c := Option.some.inj hc
              cases op <;> decide
          | opening =>
              obtain rfl : '(' = c := Option.some.inj hc
              decide
          | closing =>
              obtain rfl : ')' = c := Option.some.inj hc
              decide

/-- No literal goes on behind a numeral that no numeral follows. -/
theorem endsLiteral_of_isChain {word : Word} {words : List Word} {text : List Char}
    (h : Spells words text) (hapart : (word :: words).IsChain Word.Apart)
    (hnumeral : word.isNumeral = true) : Literal.EndsLiteral text := by
  refine h.endsLiteral ?_
  intro next hnext
  cases words with
  | nil => cases hnext
  | cons other words =>
      obtain rfl : other = next := Option.some.inj hnext
      rcases (List.isChain_cons_cons.1 hapart).1 with hleft | hright
      · rw [hnumeral] at hleft
        cases hleft
      · exact hright

end Spells

namespace Token

/-- A text is cut into the words that spell it, where no two numerals are neighbours. -/
theorem cut_of_spells {words : List Word} {text : List Char} (h : Spells words text)
    (hapart : words.IsChain Word.Apart) :
    ∀ position : Nat, cut position text = .ok (words.map Word.token) := by
  induction h with
  | @nil blanks hblanks =>
      intro position
      have hcut := cut_blanks hblanks [] position
      rw [List.append_nil] at hcut
      rw [hcut, cut]
      rfl
  | @cons blanks text word words hblanks hrest ih =>
      intro position
      rw [cut_blanks hblanks, cut_word word (hrest.endsLiteral_of_isChain hapart), ih hapart.tail]
      rfl

/-- A word was cut off, and the rest into words. -/
theorem exists_words_cons (word : Word) {rest : List Char}
    {cutRest : Except Fault (List Token)} {tokens : List Token}
    (h : cutRest.map (word.token :: ·) = .ok tokens)
    (ih : ∀ {others : List Token}, cutRest = .ok others →
      ∃ words, Spells words rest ∧ words.map Word.token = others) :
    ∃ words, Spells words (word.spelling ++ rest) ∧ words.map Word.token = tokens := by
  cases cutRest with
  | error fault => cases h
  | ok others =>
      obtain ⟨words, hspells, hwords⟩ := ih rfl
      have hnone : ∀ c ∈ ([] : List Char), Text.isBlank c = true := by simp
      refine ⟨word :: words, .cons hnone hspells, ?_⟩
      rw [List.map_cons, hwords]
      exact Except.ok.inj h

/-- A literal of a finite number was cut off, and the rest into words. -/
theorem exists_words_literal {text literal after : List Char} {cutRest : Except Fault (List Token)}
    {tokens : List Token} (hsplit : Literal.split? text = some (literal, after))
    (hfinite : (Literal.value literal).isFinite = true)
    (h : cutRest.map (number (Literal.value literal) :: ·) = .ok tokens)
    (ih : ∀ {others : List Token}, cutRest = .ok others →
      ∃ words, Spells words after ∧ words.map Word.token = others) :
    ∃ words, Spells words text ∧ words.map Word.token = tokens := by
  rw [← Literal.append_of_split? hsplit]
  exact exists_words_cons (.numeral ⟨literal, Literal.inLanguage_of_split? hsplit, hfinite⟩) h ih

/-- A text that can be cut is spelled by words. -/
theorem exists_words_of_cut {position : Nat} {text : List Char} {tokens : List Token}
    (h : cut position text = .ok tokens) :
    ∃ words, Spells words text ∧ words.map Word.token = tokens := by
  fun_induction cut position text generalizing tokens with
  | case1 position => exact ⟨[], .nil (by simp), Except.ok.inj h⟩
  | case2 | case3 | case5 | case6 | case7 | case9 | case13 => cases h
  | case4 position c rest _ hkind literal after hsplit _ hpoint hfinite ih =>
      exact exists_words_literal hsplit hfinite h ih
  | case8 position c rest _ hkind literal after hsplit _ hpoint hfinite ih =>
      exact exists_words_literal hsplit hfinite h ih
  | case10 position c rest _ hkind ih =>
      obtain ⟨op, rfl⟩ := CharKind.exists_operator_of_ofChar hkind
      rw [op.singleton_char] at h
      exact exists_words_cons (.operator op) h ih
  | case11 position c rest _ hkind ih =>
      rcases CharKind.bracket_of_ofChar hkind with rfl | rfl
      · exact exists_words_cons .opening h ih
      · exact exists_words_cons .closing h ih
  | case12 position c rest _ hkind ih =>
      obtain ⟨words, hspells, hwords⟩ := ih h
      have hblank : ∀ d ∈ [c], Text.isBlank d = true := by
        simpa using CharKind.isBlank_of_ofChar hkind
      exact ⟨words, hspells.append_blanks hblank, hwords⟩

end Token

end Reckoner
