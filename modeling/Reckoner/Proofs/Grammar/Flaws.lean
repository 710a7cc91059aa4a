import Mathlib.Logic.Relation
import Reckoner.Proofs.Faults

/-!
# Flaws

A text is read from left to right, a literal as a whole and as long as it can be, anything else
character by character. What is found on the way that belongs to no token is a flaw. Cutting ends at
the leftmost flaw, and what is wrong with the order of the tokens is looked for only in a text that
has none.

## Main results

* `cut_of_isAt`: cutting fails at a flaw.
* `cut_of_advances`: where there is no flaw, cutting goes on with what is left to read.
* `cut_of_isLeftmost`: cutting fails with the leftmost flaw.
* `isFlawless_iff`: the texts that can be cut are those without a flaw.
* `leftmost_flaw_decides`: the leftmost flaw of a text decides what is wrong with the text.
-/

namespace Reckoner

/-! ## Reading from left to right -/

/-- One step of reading: the longest literal where one starts, else one character. -/
inductive Advances : List Char → List Char → Prop
  | literal {literal after : List Char} (hlongest : Literal.IsLongest literal (literal ++ after)) :
      Advances (literal ++ after) after
  | character {c : Char} {after : List Char} (hnone : Literal.StartsNone (c :: after)) :
      Advances (c :: after) after

/-- Reading the text comes to where the other text is left. -/
def Reaches : List Char → List Char → Prop := Relation.ReflTransGen Advances

/-- What can be wrong with the characters of a text. -/
inductive Flaw where
  /-- A character that belongs to no token. -/
  | strangeCharacter
  /-- A point that starts no literal. -/
  | lonePoint
  /-- A literal directly followed by a point. -/
  | secondPoint
  /-- A literal beyond the finite range. -/
  | tooBig
deriving DecidableEq

namespace Flaw

/-- The kind of the fault that a flaw is. -/
def kind : Flaw → Fault.Kind
  | strangeCharacter | lonePoint | secondPoint => .malformed
  | tooBig => .calculation

/-- The code of the fault that a flaw is. -/
def code : Flaw → String
  | strangeCharacter => "3032"
  | lonePoint | secondPoint => "3008"
  | tooBig => "3026"

/-- The text begins with a flaw. -/
inductive IsAt : Flaw → List Char → Prop
  | strangeCharacter {c : Char} {rest : List Char} (hmark : c ∉ CharKind.marks)
      (hdigit : c.isDigit = false) (hpoint : c ≠ '.') (hblank : Text.isBlank c = false) :
      IsAt strangeCharacter (c :: rest)
  | lonePoint {rest : List Char} (hnone : Literal.StartsNone ('.' :: rest)) :
      IsAt lonePoint ('.' :: rest)
  | secondPoint {literal rest : List Char}
      (hlongest : Literal.IsLongest literal (literal ++ '.' :: rest)) :
      IsAt secondPoint (literal ++ '.' :: rest)
  | tooBig {literal after : List Char} (hlongest : Literal.IsLongest literal (literal ++ after))
      (hpoint : after.head? ≠ some '.') (hvalue : (Literal.value literal).isFinite = false) :
      IsAt tooBig (literal ++ after)

/-- Reading the text comes to a flaw, and `rest` is left to read there. -/
structure IsIn (flaw : Flaw) (text rest : List Char) : Prop where
  reaches : Reaches text rest
  isAt : flaw.IsAt rest

/-- The leftmost flaw of a text: at no other is more left to read. -/
structure IsLeftmost (flaw : Flaw) (text rest : List Char) : Prop extends flaw.IsIn text rest where
  leftmost : ∀ other behind, IsIn other text behind → behind.length ≤ rest.length

end Flaw

/-- A text without flaws. -/
def IsFlawless (text : List Char) : Prop := ∀ flaw rest, ¬ Flaw.IsIn flaw text rest

/-! ## Steps -/

namespace Advances

variable {text after other : List Char}

theorem iff_split? :
    Advances text after ↔
      (∃ literal, Literal.split? text = some (literal, after)) ∨
        Literal.split? text = none ∧ ∃ c, text = c :: after := by
  constructor
  · intro h
    cases h with
    | literal hlongest => exact Or.inl ⟨_, Literal.split?_eq_some_iff.2 ⟨hlongest, rfl⟩⟩
    | character hnone => exact Or.inr ⟨Literal.split?_eq_none_iff.2 hnone, _, rfl⟩
  · rintro (⟨literal, hsplit⟩ | ⟨hsplit, c, rfl⟩)
    · obtain ⟨hlongest, rfl⟩ := Literal.split?_eq_some_iff.1 hsplit
      exact .literal hlongest
    · exact .character (Literal.split?_eq_none_iff.1 hsplit)

/-- There is one way to read on. -/
theorem unique (h : Advances text after) (hother : Advances text other) : after = other := by
  rcases iff_split?.1 h with ⟨literal, hsplit⟩ | ⟨hsplit, c, rfl⟩ <;>
    rcases iff_split?.1 hother with ⟨literal', hsplit'⟩ | ⟨hsplit', c', htext⟩
  · rw [hsplit] at hsplit'
    exact congrArg Prod.snd (Option.some.inj hsplit')
  · rw [hsplit] at hsplit'
    cases hsplit'
  · rw [hsplit] at hsplit'
    cases hsplit'
  · exact (List.cons.inj htext).2

/-- Reading goes on to the end. -/
theorem exists_of_ne_nil (htext : text ≠ []) : ∃ after, Advances text after := by
  cases hsplit : Literal.split? text with
  | none =>
      obtain ⟨c, rest, rfl⟩ := List.exists_cons_of_ne_nil htext
      exact ⟨rest, iff_split?.2 (Or.inr ⟨hsplit, c, rfl⟩)⟩
  | some parts => exact ⟨parts.2, iff_split?.2 (Or.inl ⟨parts.1, hsplit⟩)⟩

theorem length_lt (h : Advances text after) : after.length < text.length := by
  rcases iff_split?.1 h with ⟨literal, hsplit⟩ | ⟨-, c, rfl⟩
  · exact Literal.length_lt_of_split? hsplit
  · exact Nat.lt_succ_self _

end Advances

theorem Reaches.length_le {text rest : List Char} (h : Reaches text rest) :
    rest.length ≤ text.length := by
  induction h using Relation.ReflTransGen.head_induction_on with
  | refl => exact Nat.le_refl _
  | head hstep _ ih => exact Nat.le_of_lt (Nat.lt_of_le_of_lt ih hstep.length_lt)

namespace Flaw

variable {flaw : Flaw} {text rest : List Char}

/-- An operator or a bracket is no flaw. -/
theorem IsAt.not_mem_marks {c : Char} (h : flaw.IsAt (c :: rest)) : c ∉ CharKind.marks := by
  generalize htext : c :: rest = text at h
  have hpoint : '.' ∉ CharKind.marks := by decide
  cases h with
  | strangeCharacter hmark =>
      rw [(List.cons.inj htext).1]
      exact hmark
  | lonePoint =>
      rw [(List.cons.inj htext).1]
      exact hpoint
  | secondPoint hlongest | tooBig hlongest =>
      obtain ⟨d, digits, rfl, hd⟩ := Literal.exists_head_of_inLanguage hlongest.inLanguage
      rw [(List.cons.inj htext).1]
      rcases hd with hdigit | rfl
      · intro hmark
        rw [(CharKind.of_mem_marks hmark).1] at hdigit
        cases hdigit
      · exact hpoint

/-- A flaw with which a text begins is its leftmost one. -/
theorem IsAt.isLeftmost (h : flaw.IsAt text) : flaw.IsLeftmost text text where
  reaches := .refl
  isAt := h
  leftmost _ _ hother := hother.reaches.length_le

/-- A flaw further on is found by reading on. -/
theorem IsIn.of_advances {after : List Char} (hstep : Advances text after)
    (hclean : ¬ flaw.IsAt text) (h : flaw.IsIn text rest) : flaw.IsIn after rest := by
  rcases Relation.ReflTransGen.cases_head h.reaches with rfl | ⟨next, hnext, hreaches⟩
  · exact absurd h.isAt hclean
  · rw [hstep.unique hnext]
    exact ⟨hreaches, h.isAt⟩

/-- Where a text does not begin with a flaw, its leftmost flaw is the leftmost one of what is left
to read. -/
theorem IsLeftmost.of_advances {after : List Char} (hstep : Advances text after)
    (hclean : ∀ other : Flaw, ¬ other.IsAt text) (h : flaw.IsLeftmost after rest) :
    flaw.IsLeftmost text rest where
  reaches := .head hstep h.reaches
  isAt := h.isAt
  leftmost other _ hother := h.leftmost other _ (hother.of_advances hstep (hclean other))

/-- A text that has a flaw has a leftmost one. -/
theorem IsIn.exists_isLeftmost (h : flaw.IsIn text rest) :
    ∃ first behind, IsLeftmost first text behind := by
  obtain ⟨hreaches, hat⟩ := h
  induction hreaches using Relation.ReflTransGen.head_induction_on with
  | refl => exact ⟨flaw, rest, hat.isLeftmost⟩
  | @head text after hstep _ ih =>
      by_cases hhere : ∃ other : Flaw, other.IsAt text
      · obtain ⟨other, hother⟩ := hhere
        exact ⟨other, text, hother.isLeftmost⟩
      · obtain ⟨first, behind, hfirst⟩ := ih
        exact ⟨first, behind, hfirst.of_advances hstep (not_exists.1 hhere)⟩

end Flaw

/-! ## Cutting -/

namespace Token

variable {flaw : Flaw} {text rest : List Char}

/-- Cutting fails at a flaw. -/
theorem cut_of_isAt (h : flaw.IsAt text) (position : Nat) :
    ∃ fault, cut position text = .error fault ∧ fault.kind = flaw.kind ∧
      fault.code = flaw.code := by
  cases h with
  | @strangeCharacter c rest hmark hdigit hpoint hblank =>
      have hkind := CharKind.ofChar_eq_other_iff.2 ⟨hmark, hdigit, hpoint, hblank⟩
      exact ⟨_, cut_other hkind position rest, rfl, rfl⟩
  | @lonePoint rest hnone =>
      refine ⟨.lonePoint position, ?_, rfl, rfl⟩
      rw [cut_literal (Or.inr rfl), Literal.split?_eq_none_iff.2 hnone]
  | @secondPoint literal rest hlongest =>
      refine ⟨.secondPoint (String.ofList literal), ?_, rfl, rfl⟩
      rw [cut_of_split? (Literal.split?_eq_some_iff.2 ⟨hlongest, rfl⟩), List.head?_cons, if_pos rfl]
  | @tooBig literal after hlongest hpoint hvalue =>
      refine ⟨.literalTooBig (String.ofList literal), ?_, rfl, rfl⟩
      rw [cut_of_split? (Literal.split?_eq_some_iff.2 ⟨hlongest, rfl⟩), if_neg hpoint,
        if_neg (by simp [hvalue])]

/-- Where there is no flaw, cutting goes on with what is left to read. -/
theorem cut_of_advances {after : List Char} (hstep : Advances text after)
    (hclean : ∀ flaw : Flaw, ¬ flaw.IsAt text) (position : Nat) :
    ∃ next add, cut position text = (cut next after).map add := by
  cases hstep with
  | @literal literal after hlongest =>
      have hpoint : after.head? ≠ some '.' := by
        intro hhead
        obtain ⟨rest, rfl⟩ := List.head?_eq_some_iff.1 hhead
        exact hclean .secondPoint (.secondPoint hlongest)
      have hvalue : (Literal.value literal).isFinite = true := by
        by_contra hinfinite
        exact hclean .tooBig (.tooBig hlongest hpoint (by simpa using hinfinite))
      rw [cut_of_split? (Literal.split?_eq_some_iff.2 ⟨hlongest, rfl⟩), if_neg hpoint,
        if_pos hvalue]
      exact ⟨_, _, rfl⟩
  | @character c after hnone =>
      have hdigit := Literal.isDigit_of_startsNone hnone
      have hpoint : c ≠ '.' := by
        rintro rfl
        exact hclean .lonePoint (.lonePoint hnone)
      have hliteral : ¬ Literal.isLiteralChar c = true := by
        simp [Literal.isLiteralChar, hdigit, hpoint]
      cases hkind : CharKind.ofChar c with
      | operator => exact ⟨_, _, cut_mark (Or.inl hkind) position after⟩
      | bracket => exact ⟨_, _, cut_mark (Or.inr hkind) position after⟩
      | blank =>
          refine ⟨position + 1, id, ?_⟩
          rw [cut_blank (CharKind.isBlank_of_ofChar hkind), Except.map_id, id]
      | digit => exact absurd (Literal.isLiteralChar_iff.2 (Or.inl hkind)) hliteral
      | decimalPoint => exact absurd (Literal.isLiteralChar_iff.2 (Or.inr hkind)) hliteral
      | other =>
          obtain ⟨hmark, -, -, hblank⟩ := CharKind.ofChar_eq_other_iff.1 hkind
          exact absurd (.strangeCharacter hmark hdigit hpoint hblank) (hclean .strangeCharacter)

/-- Cutting fails with the leftmost flaw, however much is read before. -/
theorem cut_of_isLeftmost (h : flaw.IsLeftmost text rest) :
    ∀ position : Nat, ∃ fault, cut position text = .error fault ∧
      fault.kind = flaw.kind ∧ fault.code = flaw.code := by
  obtain ⟨⟨hreaches, hat⟩, hleftmost⟩ := h
  -- along the way to the flaw: what lies before it has none, since more is left to read there
  induction hreaches using Relation.ReflTransGen.head_induction_on with
  | refl => exact cut_of_isAt hat
  | @head text after hstep hreaches ih =>
      intro position
      have hclean : ∀ other : Flaw, ¬ other.IsAt text := by
        intro other hother
        have hle := hleftmost other text ⟨.refl, hother⟩
        have hlt := Nat.lt_of_le_of_lt (Reaches.length_le hreaches) hstep.length_lt
        omega
      obtain ⟨next, add, hcut⟩ := cut_of_advances hstep hclean position
      obtain ⟨fault, hfault, hdecides⟩ :=
        ih (fun other behind hother => hleftmost other behind ⟨.head hstep hother.1, hother.2⟩) next
      rw [hcut, hfault]
      exact ⟨fault, rfl, hdecides⟩

/-- A text without flaws can be cut. -/
theorem exists_cut_of_isFlawless (h : IsFlawless text) :
    ∀ position : Nat, ∃ tokens, cut position text = .ok tokens := by
  induction hlength : text.length using Nat.strong_induction_on generalizing text with
  | h length ih =>
      intro position
      by_cases htext : text = []
      · rw [htext, cut]
        exact ⟨[], rfl⟩
      · obtain ⟨after, hstep⟩ := Advances.exists_of_ne_nil htext
        have hafter : IsFlawless after := fun flaw rest hflaw =>
          h flaw rest ⟨.head hstep hflaw.reaches, hflaw.isAt⟩
        obtain ⟨next, add, hcut⟩ :=
          cut_of_advances hstep (fun flaw hat => h flaw text ⟨.refl, hat⟩) position
        obtain ⟨tokens, htokens⟩ := ih after.length (hlength ▸ hstep.length_lt) hafter rfl next
        rw [hcut, htokens]
        exact ⟨add tokens, rfl⟩

/-- The texts that can be cut are those without a flaw. -/
theorem isFlawless_iff (position : Nat) :
    IsFlawless text ↔ ∃ tokens, cut position text = .ok tokens := by
  constructor
  · intro h
    exact exists_cut_of_isFlawless h position
  · rintro ⟨tokens, hcut⟩ flaw rest hflaw
    obtain ⟨first, behind, hfirst⟩ := hflaw.exists_isLeftmost
    obtain ⟨fault, hfault, -⟩ := cut_of_isLeftmost hfirst position
    rw [hcut] at hfault
    cases hfault

end Token

/-! ## The leftmost flaw decides -/

/-- A text that has a flaw has a leftmost one. It is not read, and the fault is of the kind and of
the code of its leftmost flaw, whatever the order of its tokens. What is wrong with a text without
flaws is never of the code of a flaw. -/
theorem leftmost_flaw_decides (writesProducts : Bool) (text : List Char) :
    ((∃ flaw rest, Flaw.IsIn flaw text rest) → ∃ flaw rest, Flaw.IsLeftmost flaw text rest) ∧
      (∀ flaw rest, Flaw.IsLeftmost flaw text rest →
        ∃ fault, Token.read writesProducts text = .error fault ∧
          fault.kind = flaw.kind ∧ fault.code = flaw.code) ∧
        (IsFlawless text → ∀ fault, Token.read writesProducts text = .error fault →
          fault.code ∉ ["3008", "3026", "3032"]) := by
  refine ⟨?_, ?_, ?_⟩
  · rintro ⟨flaw, rest, hflaw⟩
    exact hflaw.exists_isLeftmost
  · intro flaw rest hleftmost
    obtain ⟨fault, hcut, hdecides⟩ := Token.cut_of_isLeftmost hleftmost 0
    exact ⟨fault, Token.read_of_cut hcut writesProducts, hdecides⟩
  · intro hflawless fault hread
    obtain ⟨unsigned, hcut⟩ := (Token.isFlawless_iff 0).1 hflawless
    obtain ⟨-, horder⟩ := Token.isOfOrder_of_read hcut hread
    intro hcode
    have hdisjoint : ∀ code ∈ Fault.orderCodes, code ∉ ["3008", "3026", "3032"] := by decide
    exact hdisjoint _ horder hcode

/-- A bracket that was never opened and a strange character further on make no difference to a
second point, while in a text without flaws the bracket is what is wrong. -/
theorem second_point_comes_before_missing_opening :
    Flaw.IsLeftmost .secondPoint [')', '1', '.', '2', '.', '$'] ['1', '.', '2', '.', '$'] ∧
      (∃ fault, Token.read true [')', '1', '.', '2', '.', '$'] = .error fault ∧
        fault.kind = .malformed ∧ fault.code = "3008") ∧
      IsFlawless [')'] ∧
        ∃ fault, Token.read true [')'] = .error fault ∧ fault.code = "3010" ∧
          fault.code ∉ ["3008", "3026", "3032"] := by
  have hsplit : Literal.split? ['1', '.', '2', '.', '$'] = some (['1', '.', '2'], ['.', '$']) := by
    decide
  have hlongest : Literal.IsLongest ['1', '.', '2'] (['1', '.', '2'] ++ '.' :: ['$']) :=
    (Literal.split?_eq_some_iff.1 hsplit).1
  have hstep : Advances [')', '1', '.', '2', '.', '$'] ['1', '.', '2', '.', '$'] :=
    .character (Literal.split?_eq_none_iff.1 (by decide))
  have hclean : ∀ flaw : Flaw, ¬ flaw.IsAt [')', '1', '.', '2', '.', '$'] := fun flaw hat =>
    hat.not_mem_marks (by decide)
  have hleftmost := (Flaw.IsAt.secondPoint hlongest).isLeftmost.of_advances hstep hclean
  have hcut : Token.cut 0 [')'] = .ok [Token.closing] := by
    rw [Token.cut_closing, Token.cut]
    rfl
  have hread : Token.read true [')'] = .error .missingOpening := by
    rw [Token.read, hcut]
    rfl
  have hflawless := (Token.isFlawless_iff 0).2 ⟨_, hcut⟩
  exact ⟨hleftmost, (leftmost_flaw_decides true _).2.1 _ _ hleftmost, hflawless, _, hread, rfl,
    (leftmost_flaw_decides true _).2.2 hflawless _ hread⟩

end Reckoner
