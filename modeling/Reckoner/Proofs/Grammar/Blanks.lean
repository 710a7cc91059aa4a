import Reckoner.Proofs.Grammar.Alike
import Reckoner.Proofs.Grammar.Reading

/-!
# Blanks in a text

Blanks separate words and mean nothing otherwise, so that a text is read with and without its blanks
alike. The exception are blanks inside a row of digits and points: without them the row grows
together. No text with such a gap is read at all, since the words at its ends are two numerals side
by side or a point without a digit.

## Main results

* `cut_dropBlanks_alike`: a text without a gap is cut as it is cut without its blanks. The induction
  is on the text; a literal is cut off the row in front of it, which is the same in both texts.
* `Spells.not_hasGap`: a text that words spell has no gap, if no two numerals are neighbours.
* `read_dropBlanks`: what reading makes of the blanks of any text.
-/

namespace Reckoner

namespace Literal

/-! ## Gaps -/

/-- The text begins with some blanks, and a character of a literal follows them. -/
def StartsGap (text : List Char) : Prop :=
  ∃ (blanks : List Char) (c : Char) (rest : List Char), text = blanks ++ c :: rest ∧
    blanks ≠ [] ∧ (∀ d ∈ blanks, Text.isBlank d = true) ∧ isLiteralChar c = true

/-- Some blanks of the text stand directly between two characters of literals. -/
def HasGap (text : List Char) : Prop :=
  ∃ (front : List Char) (c : Char) (rest : List Char), text = front ++ c :: rest ∧
    isLiteralChar c = true ∧ StartsGap rest

section Row

variable {c : Char} {row rest after : List Char}

theorem not_hasGap_nil : ¬HasGap [] := by
  rintro ⟨front, c, rest, htext, -, -⟩
  simp at htext

theorem hasGap_cons :
    HasGap (c :: rest) ↔ (isLiteralChar c = true ∧ StartsGap rest) ∨ HasGap rest := by
  constructor
  · rintro ⟨front, d, behind, htext, hliteral, hgap⟩
    cases front with
    | nil =>
        obtain ⟨rfl, rfl⟩ := List.cons.inj htext
        exact Or.inl ⟨hliteral, hgap⟩
    | cons e front => exact Or.inr ⟨front, d, behind, (List.cons.inj htext).2, hliteral, hgap⟩
  · rintro (⟨hliteral, hgap⟩ | ⟨front, d, behind, rfl, hliteral, hgap⟩)
    · exact ⟨[], c, rest, rfl, hliteral, hgap⟩
    · exact ⟨c :: front, d, behind, rfl, hliteral, hgap⟩

/-- A gap stays one behind any text. -/
theorem HasGap.append_left (h : HasGap rest) (front : List Char) : HasGap (front ++ rest) := by
  obtain ⟨before, c, behind, rfl, hliteral, hgap⟩ := h
  exact ⟨front ++ before, c, behind, (List.append_assoc _ _ _).symm, hliteral, hgap⟩

/-- What is no character of a literal is at the edge of no gap. -/
theorem hasGap_cons_of_not (h : isLiteralChar c = false) : HasGap (c :: rest) ↔ HasGap rest := by
  simp [hasGap_cons, h]

theorem not_startsGap_cons (h : isLiteralChar c = true) : ¬StartsGap (c :: rest) := by
  rintro ⟨blanks, d, behind, htext, hne, hblanks, -⟩
  cases blanks with
  | nil => exact hne rfl
  | cons e blanks =>
      obtain ⟨rfl, -⟩ := List.cons.inj htext
      have hblank := hblanks c List.mem_cons_self
      rw [isBlank_of_isLiteralChar h] at hblank
      cases hblank

/-- The gaps at and behind a row of digits and points. -/
theorem hasGap_row_append (hne : row ≠ []) (hrow : ∀ c ∈ row, isLiteralChar c = true) :
    HasGap (row ++ after) ↔ StartsGap after ∨ HasGap after := by
  induction row with
  | nil => exact absurd rfl hne
  | cons c row ih =>
      have hc := hrow c List.mem_cons_self
      cases row with
      | nil => simp [hasGap_cons, hc]
      | cons d row =>
          have hd : ¬StartsGap (d :: (row ++ after)) := not_startsGap_cons (hrow d (by simp))
          have hrest := ih (by simp) fun e he => hrow e (List.mem_cons_of_mem _ he)
          rw [List.cons_append, hasGap_cons, hrest, List.cons_append]
          simp [hd]

/-- Where a literal has ended, a gap starts exactly if it would go on without the blanks. -/
theorem startsGap_iff (hends : EndsLiteral after) :
    StartsGap after ↔ ¬EndsLiteral (Text.dropBlanks after) := by
  rw [endsLiteral_iff, Text.dropBlanks, List.head?_filter]
  constructor
  · rintro ⟨blanks, c, rest, rfl, -, hblanks, hliteral⟩ hnone
    have hfind : (blanks ++ c :: rest).find? (fun d => !Text.isBlank d) = some c := by
      rw [List.find?_eq_some_iff_append]
      exact ⟨by simp [isBlank_of_isLiteralChar hliteral], blanks, rest, rfl, by simpa using hblanks⟩
    rw [hnone c hfind] at hliteral
    cases hliteral
  · intro hnot
    simp only [not_forall] at hnot
    obtain ⟨c, hfind, hliteral⟩ := hnot
    obtain ⟨-, blanks, rest, rfl, hblanks⟩ := List.find?_eq_some_iff_append.1 hfind
    refine ⟨blanks, c, rest, rfl, ?_, by simpa using hblanks, by simpa using hliteral⟩
    rintro rfl
    exact hliteral (endsLiteral_iff.1 hends c rfl)

/-- A row of digits and points has no blanks to lose. -/
theorem dropBlanks_row_append (hrow : ∀ c ∈ row, isLiteralChar c = true) :
    Text.dropBlanks (row ++ after) = row ++ Text.dropBlanks after := by
  rw [Text.dropBlanks_append, Text.dropBlanks_of_no_blank]
  intro c hc
  exact isBlank_of_isLiteralChar (hrow c hc)

/-- The row in front of a text without a gap ends at the same character with and without blanks. -/
theorem exists_row (hgap : ¬HasGap (c :: rest)) (hc : isLiteralChar c = true) :
    ∃ row after : List Char, c :: rest = row ++ after ∧ (∀ d ∈ row, isLiteralChar d = true) ∧
      EndsLiteral after ∧ EndsLiteral (Text.dropBlanks after) := by
  have hsplit := List.takeWhile_append_dropWhile (p := isLiteralChar) (l := c :: rest)
  have hrow : ∀ d ∈ (c :: rest).takeWhile isLiteralChar, isLiteralChar d = true := by
    intro d hd
    exact List.all_eq_true.1 (List.all_takeWhile (p := isLiteralChar) (l := c :: rest)) d hd
  have hne : (c :: rest).takeWhile isLiteralChar ≠ [] := by simp [hc]
  have hends : EndsLiteral ((c :: rest).dropWhile isLiteralChar) := by
    rw [endsLiteral_iff]
    intro d hd
    have hstop := List.head?_dropWhile_not isLiteralChar (c :: rest)
    rwa [hd] at hstop
  refine ⟨_, _, hsplit.symm, hrow, hends, ?_⟩
  rw [← hsplit, hasGap_row_append hne hrow, startsGap_iff hends] at hgap
  by_contra hnot
  exact hgap (Or.inl hnot)

end Row

/-- The blanks in front of a text are at no gap. -/
theorem hasGap_blanks_append {blanks rest : List Char}
    (hblanks : ∀ c ∈ blanks, Text.isBlank c = true) : HasGap (blanks ++ rest) ↔ HasGap rest := by
  induction blanks with
  | nil => rfl
  | cons c blanks ih =>
      have hc := isLiteralChar_of_isBlank (hblanks c List.mem_cons_self)
      rw [List.cons_append, hasGap_cons_of_not hc]
      exact ih fun d hd => hblanks d (List.mem_cons_of_mem _ hd)

end Literal

/-! ## Words -/

/-- A word has no blanks. -/
theorem Word.isBlank_of_mem_spelling {word : Word} :
    ∀ c ∈ word.spelling, Text.isBlank c = false := by
  intro c hc
  cases word with
  | numeral n =>
      exact Literal.isBlank_of_isLiteralChar (Literal.isLiteralChar_of_inLanguage n.inLanguage c hc)
  | operator op =>
      obtain rfl : c = op.char := List.mem_singleton.1 hc
      cases op <;> decide
  | opening =>
      obtain rfl : c = '(' := List.mem_singleton.1 hc
      decide
  | closing =>
      obtain rfl : c = ')' := List.mem_singleton.1 hc
      decide

namespace Spells

/-- The words of a text spell it without its blanks as well. -/
theorem dropBlanks {words : List Word} {text : List Char} (h : Spells words text) :
    Spells words (Text.dropBlanks text) := by
  have hnone : ∀ c ∈ ([] : List Char), Text.isBlank c = true := by simp
  induction h with
  | nil hblanks =>
      rw [Text.dropBlanks_of_blank hblanks]
      exact .nil hnone
  | @cons blanks text word words hblanks hrest ih =>
      rw [Text.dropBlanks_append, Text.dropBlanks_append, Text.dropBlanks_of_blank hblanks,
        Text.dropBlanks_of_no_blank word.isBlank_of_mem_spelling]
      exact .cons hnone ih

/-- Where no two numerals are neighbours, no blanks stand inside a row of digits and points. -/
theorem not_hasGap {words : List Word} {text : List Char} (h : Spells words text)
    (hapart : words.IsChain Word.Apart) : ¬Literal.HasGap text := by
  induction h with
  | @nil blanks hblanks =>
      rw [← List.append_nil blanks, Literal.hasGap_blanks_append hblanks]
      exact Literal.not_hasGap_nil
  | @cons blanks text word words hblanks hrest ih =>
      rw [Literal.hasGap_blanks_append hblanks]
      cases word with
      | numeral n =>
          obtain ⟨c, digits, hdigits, -⟩ := Literal.exists_head_of_inLanguage n.inLanguage
          have hne : n.digits ≠ [] := by simp [hdigits]
          have hends : Literal.EndsLiteral text := hrest.endsLiteral_of_isChain hapart rfl
          have hwithout : Literal.EndsLiteral (Text.dropBlanks text) :=
            hrest.dropBlanks.endsLiteral_of_isChain hapart rfl
          rw [Word.spelling, Literal.hasGap_row_append hne
            (Literal.isLiteralChar_of_inLanguage n.inLanguage), Literal.startsGap_iff hends]
          simp [hwithout, ih hapart.tail]
      | operator op =>
          have hop : Literal.isLiteralChar op.char = false := by cases op <;> decide
          rw [Word.spelling, List.singleton_append, Literal.hasGap_cons_of_not hop]
          exact ih hapart.tail
      | opening | closing =>
          rw [Word.spelling, List.singleton_append, Literal.hasGap_cons_of_not (by decide)]
          exact ih hapart.tail

end Spells

/-! ## Cutting and reading -/

namespace Token

/-- The first character of a text stays if it is no blank. -/
theorem dropBlanks_cons {c : Char} (hkind : CharKind.ofChar c ≠ .blank) (rest : List Char) :
    Text.dropBlanks (c :: rest) = c :: Text.dropBlanks rest := by
  refine Text.dropBlanks_cons_of_not_blank ?_
  by_contra hblank
  exact hkind (CharKind.ofChar_of_isBlank (by simpa using hblank))

/-- A literal is cut off the row in front of a text, which blanks behind the row leave as it is. -/
theorem cut_row_alike {c : Char} {rest : List Char} (hgap : ¬Literal.HasGap (c :: rest))
    (hkind : CharKind.ofChar c = .digit ∨ CharKind.ofChar c = .decimalPoint)
    (hshorter : ∀ text : List Char, text.length < rest.length + 1 → ¬Literal.HasGap text →
      ∀ p q, Alike Eq (cut p text) (cut q (Text.dropBlanks text))) (p q : Nat) :
    Alike Eq (cut p (c :: rest)) (cut q (Text.dropBlanks (c :: rest))) := by
  obtain ⟨row, after, htext, hrow, hends, hwithout⟩ :=
    Literal.exists_row hgap (Literal.isLiteralChar_iff.2 hkind)
  have hkeep : Text.dropBlanks (c :: rest) = c :: Text.dropBlanks rest :=
    dropBlanks_cons (by rcases hkind with h | h <;> simp [h]) rest
  have hdrop : c :: Text.dropBlanks rest = row ++ Text.dropBlanks after := by
    rw [← hkeep, htext, Literal.dropBlanks_row_append hrow]
  rw [hkeep, cut_literal hkind, cut_literal hkind, htext, hdrop,
    Literal.split?_row_append row hends, Literal.split?_row_append row hwithout]
  cases hsplit : Literal.split? row with
  | none => exact .error rfl rfl
  | some parts =>
      obtain ⟨literal, behind⟩ := parts
      have hparts : literal ++ behind = row := Literal.append_of_split? hsplit
      have hbehind : ∀ d ∈ behind, Literal.isLiteralChar d = true := by
        intro d hd
        exact hrow d (hparts ▸ List.mem_append_right literal hd)
      have hlength : (behind ++ after).length < rest.length + 1 := by
        have hcut := Literal.length_lt_of_split? hsplit
        rw [← List.length_cons (a := c), htext, List.length_append, List.length_append]
        omega
      have hnext : ¬Literal.HasGap (behind ++ after) := by
        intro h
        rw [htext, ← hparts, List.append_assoc] at hgap
        exact hgap (h.append_left literal)
      have halike := hshorter (behind ++ after) hlength hnext
      rw [Literal.dropBlanks_row_append hbehind] at halike
      have hpoint : (behind ++ after).head? = some '.' ↔
          (behind ++ Text.dropBlanks after).head? = some '.' := by
        cases behind with
        | nil => simp [hends.head?_ne, hwithout.head?_ne]
        | cons d behind => rfl
      simp only [Option.map_some, hpoint]
      split
      · exact .error rfl rfl
      · split
        · exact (halike _ _).map fun _ _ h => congrArg _ h
        · exact .error rfl rfl

/-- A text without a gap is cut as it is cut without its blanks. -/
theorem cut_dropBlanks_alike (text : List Char) (hgap : ¬Literal.HasGap text) (p q : Nat) :
    Alike Eq (cut p text) (cut q (Text.dropBlanks text)) := by
  match text with
  | [] =>
      rw [Text.dropBlanks, List.filter_nil, cut, cut]
      exact .ok rfl
  | c :: rest =>
      have hrest : ¬Literal.HasGap rest := fun h => hgap (h.append_left [c])
      cases hkind : CharKind.ofChar c with
      | operator =>
          rw [dropBlanks_cons (by simp [hkind]), cut_mark (Or.inl hkind), cut_mark (Or.inl hkind)]
          exact (cut_dropBlanks_alike rest hrest _ _).map fun _ _ h => congrArg _ h
      | bracket =>
          rw [dropBlanks_cons (by simp [hkind]), cut_mark (Or.inr hkind), cut_mark (Or.inr hkind)]
          exact (cut_dropBlanks_alike rest hrest _ _).map fun _ _ h => congrArg _ h
      | blank =>
          have hblank := CharKind.isBlank_of_ofChar hkind
          rw [cut_blank hblank, Text.dropBlanks_cons_of_blank hblank]
          exact cut_dropBlanks_alike rest hrest _ _
      | other =>
          rw [dropBlanks_cons (by simp [hkind]), cut_other hkind, cut_other hkind]
          exact .error rfl rfl
      | digit | decimalPoint =>
          exact cut_row_alike hgap (by simp [hkind])
            (fun text _ hnext p q => cut_dropBlanks_alike text hnext p q) p q
termination_by text.length

/-- Blanks make no difference to a text, unless some of them keep digits and points apart that would
be one row without them: such a text is not read. What is read at all is read without blanks too. -/
theorem read_dropBlanks (writesProducts : Bool) (text : List Char) :
    (¬Literal.HasGap text →
        Alike Eq (read writesProducts text) (read writesProducts (Text.dropBlanks text))) ∧
      (Literal.HasGap text → ∃ fault, read writesProducts text = .error fault) ∧
        ∀ tokens, read writesProducts text = .ok tokens →
          read writesProducts (Text.dropBlanks text) = .ok tokens := by
  have halike : ¬Literal.HasGap text →
      Alike Eq (read writesProducts text) (read writesProducts (Text.dropBlanks text)) := by
    intro hgap
    refine (cut_dropBlanks_alike text hgap 0 0).bind ?_
    rintro unsigned _ rfl
    exact Alike.refl _
  have hwords : ∀ tokens, read writesProducts text = .ok tokens → ¬Literal.HasGap text := by
    intro tokens hread
    obtain ⟨phrase, hallowed, hspells, -⟩ := Phrase.exists_expression_of_read hread
    exact hspells.not_hasGap (Phrase.isChain_words hallowed)
  refine ⟨halike, ?_, ?_⟩
  · intro hgap
    cases hread : read writesProducts text with
    | error fault => exact ⟨fault, rfl⟩
    | ok tokens => exact absurd hgap (hwords tokens hread)
  · intro tokens hread
    have hboth := halike (hwords tokens hread)
    rw [hread] at hboth
    exact hboth.eq_ok

/-- Two numbers that only a blank keeps apart are refused, while one behind a sign is no gap. -/
theorem gap_in_number_is_refused :
    (Literal.HasGap ['1', ' ', '2'] ∧ ∃ fault, read true ['1', ' ', '2'] = .error fault) ∧
      ¬Literal.HasGap ['-', ' ', '1'] ∧
        Alike Eq (read true ['-', ' ', '1']) (read true ['-', '1']) := by
  have hgap : Literal.HasGap ['1', ' ', '2'] :=
    ⟨[], '1', [' ', '2'], rfl, rfl, [' '], '2', [], rfl, by simp,
      List.forall_mem_singleton.2 (by decide), rfl⟩
  have hsign : ¬Literal.HasGap ['-', ' ', '1'] := by
    rw [Literal.hasGap_cons_of_not rfl, Literal.hasGap_cons_of_not rfl]
    intro h
    rcases Literal.hasGap_cons.1 h with ⟨-, blanks, c, rest, hempty, -⟩ | hnone
    · simp at hempty
    · exact Literal.not_hasGap_nil hnone
  exact ⟨⟨hgap, (read_dropBlanks true _).2.1 hgap⟩, hsign, (read_dropBlanks true _).1 hsign⟩

end Token

end Reckoner
