import Reckoner.Proofs.Grammar.Literal
import Reckoner.Proofs.Grammar.Pattern

/-!
# The longest literal at a position

The pattern of literals, `[0-9]*\.?[0-9]+`, has digits on both sides of a point that may be missing.
A search that goes from left to right gives all digits to the first row, and has to give one back
where no point with a digit follows. What it ends with is what is cut off by counting digits: the
longest literal that starts at the position. A text goes on behind it with nothing that would make
it a longer one. A position that does not fit into 64 bits is refused before any of that, even where
it would be the beginning or the end of the text.

## Main results

* `inLanguage_iff_matches`: the literals are the rows of their pattern.
* `search?_pattern`: the search for the pattern finds what is cut off.
* `IsLongest.not_inLanguage_append`: nothing that follows the longest literal goes on with it.
* `longest_literal_at`: what is read at a position is the longest literal there, and nothing is read
  where none starts.
-/

namespace Reckoner.Literal

/-! ## The pattern of literals -/

/-- Any number of digits, at most one point, and at least one digit. -/
def pattern : List Pattern.Piece :=
  [⟨Char.isDigit, .anyTimes⟩, ⟨(· == '.'), .atMostOnce⟩, ⟨Char.isDigit, .once⟩,
    ⟨Char.isDigit, .anyTimes⟩]

theorem covers_point {row : List Char} :
    Pattern.Piece.Covers ⟨(· == '.'), .atMostOnce⟩ row ↔ row = [] ∨ row = ['.'] := by
  constructor
  · rintro ⟨hpoints, hlength⟩
    rcases row with _ | ⟨c, _ | ⟨d, row⟩⟩
    · exact Or.inl rfl
    · exact Or.inr (by simpa using hpoints)
    · simp at hlength
  · rintro (rfl | rfl) <;> simp [Pattern.Piece.Covers]

/-- A digit and then any number of digits are a row of digits that is not empty. -/
theorem matches_digits {row : List Char} :
    Pattern.Matches [⟨Char.isDigit, .once⟩, ⟨Char.isDigit, .anyTimes⟩] row ↔
      row ≠ [] ∧ ∀ c ∈ row, c.isDigit = true := by
  cases row with
  | nil => simp [Pattern.matches_cons_nil, Pattern.Piece.isOptional]
  | cons c row =>
      rw [Pattern.matches_cons_cons]
      simp [Pattern.Piece.isOptional, Pattern.Piece.rest, Pattern.Matches, Pattern.Piece.Covers]

/-- The literals are the rows that belong to their pattern. -/
theorem inLanguage_iff_matches {row : List Char} :
    InLanguage row ↔ Pattern.Matches pattern row := by
  constructor
  · rintro ⟨whole, point, fraction, rfl, hwhole, hpoint, hfraction⟩
    exact ⟨whole, point ++ fraction, rfl, ⟨hwhole, trivial⟩, point, fraction, rfl,
      covers_point.2 hpoint, matches_digits.2 hfraction⟩
  · rintro ⟨whole, _, rfl, ⟨hwhole, -⟩, point, fraction, rfl, hpoint, hfraction⟩
    exact ⟨whole, point, fraction, rfl, hwhole, covers_point.1 hpoint,
      matches_digits.1 hfraction⟩

/-- The search for the pattern of literals finds what is cut off a text. -/
theorem search?_pattern (text : List Char) : Pattern.search? pattern text = split? text := by
  apply Option.ext
  rintro ⟨literal, rest⟩
  rw [Pattern.search?_eq_some_iff, split?_eq_some_iff]
  simp only [← inLanguage_iff_matches]
  constructor
  · rintro ⟨hlanguage, htext, hlongest⟩
    exact ⟨⟨⟨rest, htext.symm⟩, hlanguage, hlongest⟩, htext⟩
  · rintro ⟨hlongest, htext⟩
    exact ⟨hlongest.inLanguage, htext, hlongest.longest⟩

/-! ## What follows the longest literal -/

section Following

variable {literal rest : List Char} {c : Char}

theorem InLanguage.ne_nil (h : InLanguage literal) : literal ≠ [] := by
  obtain ⟨c, rest, rfl, -⟩ := exists_head_of_inLanguage h
  simp

/-- A digit goes on with every literal. -/
theorem InLanguage.append_digit (h : InLanguage literal) (hc : c.isDigit = true) :
    InLanguage (literal ++ [c]) := by
  obtain ⟨whole, point, fraction, rfl, hwhole, hpoint, -, hfraction⟩ := h
  refine ⟨whole, point, fraction ++ [c], by simp, hwhole, hpoint, by simp, ?_⟩
  intro d hd
  rcases List.mem_append.1 hd with hd | hd
  · exact hfraction d hd
  · rwa [List.mem_singleton.1 hd]

/-- A point with a digit goes on with every literal that has no point yet. -/
theorem InLanguage.append_fraction (h : InLanguage literal) (hpoint : '.' ∉ literal)
    (hc : c.isDigit = true) : InLanguage (literal ++ ['.', c]) := by
  rcases inLanguage_iff.1 h with ⟨-, hdigits⟩ | ⟨whole, fraction, rfl, -⟩
  · exact inLanguage_iff.2 (Or.inr ⟨literal, [c], rfl, hdigits, by simp, by simpa using hc⟩)
  · simp at hpoint

/-- Nothing that follows the longest literal goes on with it. -/
theorem IsLongest.not_inLanguage_append (h : IsLongest literal (literal ++ rest))
    {more : List Char} (hmore : more <+: rest) (hne : more ≠ []) :
    ¬ InLanguage (literal ++ more) := by
  intro hlanguage
  have hle := h.longest _ ((List.prefix_append_right_inj literal).2 hmore) hlanguage
  have hpos := List.length_pos_iff.2 hne
  rw [List.length_append] at hle
  omega

theorem IsLongest.isDigit_head (h : IsLongest literal (literal ++ rest))
    (hc : rest.head? = some c) : c.isDigit = false := by
  obtain ⟨after, rfl⟩ := List.head?_eq_some_iff.1 hc
  rw [← Bool.not_eq_true]
  intro hdigit
  exact h.not_inLanguage_append ⟨after, rfl⟩ (by simp) (h.inLanguage.append_digit hdigit)

theorem IsLongest.isDigit_behind_point (h : IsLongest literal (literal ++ rest))
    (hpoint : '.' ∉ literal) (hc : ['.', c] <+: rest) : c.isDigit = false := by
  rw [← Bool.not_eq_true]
  intro hdigit
  exact h.not_inLanguage_append hc (by simp) (h.inLanguage.append_fraction hpoint hdigit)

end Following

/-! ## The literal at a position -/

section Position

variable {text literal : String} {start : Int}

theorem at?_of_not_fits (h : ¬ (-9223372036854775808 ≤ start ∧ start < 9223372036854775808)) :
    at? text start = .error .positionOutOfRange := by
  rw [at?, if_neg h]

variable (hfits : -9223372036854775808 ≤ start ∧ start < 9223372036854775808)
include hfits

theorem at?_of_fits :
    at? text start =
      .ok ((split? (charsFrom text start)).map fun parts => String.ofList parts.1) := by
  rw [at?, if_pos hfits]

theorem at?_eq_some_iff :
    at? text start = .ok (some literal) ↔ IsLongest literal.toList (charsFrom text start) := by
  rw [at?_of_fits hfits, Except.ok.injEq]
  constructor
  · intro hfound
    obtain ⟨⟨row, rest⟩, hsplit, hrow⟩ := Option.map_eq_some_iff.1 hfound
    obtain rfl : row = literal.toList := by rw [← hrow, String.toList_ofList]
    exact (split?_eq_some_iff.1 hsplit).1
  · intro hlongest
    obtain ⟨rest, htext⟩ := hlongest.starts
    rw [split?_eq_some_iff.2 ⟨hlongest, htext.symm⟩, Option.map_some, String.ofList_toList]

theorem at?_eq_none_iff : at? text start = .ok none ↔ StartsNone (charsFrom text start) := by
  rw [at?_of_fits hfits, Except.ok.injEq, Option.map_eq_none_iff, split?_eq_none_iff]

end Position

/-- What is read at a position of a text is what the search for the pattern of literals finds there.
It is the longest literal that the text goes on with from the position, and nothing is read exactly
if no row of characters there is a literal. No digit follows what is read, and if it has no point,
no point with a digit follows it either. This holds for the positions that fit into 64 bits, and
every other one is refused. -/
theorem longest_literal_at (text : String) (start : Int) :
    (-9223372036854775808 ≤ start ∧ start < 9223372036854775808 →
      at? text start =
          .ok ((Pattern.search? pattern (charsFrom text start)).map
            fun parts => String.ofList parts.1) ∧
        (∀ literal : String, at? text start = .ok (some literal) ↔
          IsLongest literal.toList (charsFrom text start)) ∧
          (at? text start = .ok none ↔
            ∀ row, row <+: charsFrom text start → row ≠ [] → ¬ InLanguage row) ∧
            ∀ (literal : String) (rest : List Char), at? text start = .ok (some literal) →
              charsFrom text start = literal.toList ++ rest →
                (∀ c, rest.head? = some c → c.isDigit = false) ∧
                  ('.' ∉ literal.toList → ∀ c, ['.', c] <+: rest → c.isDigit = false)) ∧
      (¬ (-9223372036854775808 ≤ start ∧ start < 9223372036854775808) →
        ∃ refusal, at? text start = .error refusal ∧ refusal.kind = "OverflowError") := by
  refine ⟨fun hfits => ⟨?_, fun literal => at?_eq_some_iff hfits, ?_, ?_⟩,
    fun hfits => ⟨_, at?_of_not_fits hfits, rfl⟩⟩
  · rw [search?_pattern, at?_of_fits hfits]
  · rw [at?_eq_none_iff hfits]
    constructor
    · intro hnone row hrow _
      exact hnone row hrow
    · intro hnone row hrow hlanguage
      exact hnone row hrow hlanguage.ne_nil hlanguage
  · intro literal rest hliteral htext
    have hlongest := (at?_eq_some_iff hfits).1 hliteral
    rw [htext] at hlongest
    exact ⟨fun c => hlongest.isDigit_head, fun hpoint c => hlongest.isDigit_behind_point hpoint⟩

/-- Twelve is read from before the start of the text, where two points follow: the first of them has
no digit behind it. At the first point nothing is read, and a position far behind the text is
refused. -/
theorem twelve_is_read_before_two_points :
    at? "12..5" (-1) = .ok (some "12") ∧
      charsFrom "12..5" (-1) = "12".toList ++ ['.', '.', '5'] ∧
        '.' ∉ "12".toList ∧ IsLongest "12".toList (charsFrom "12..5" (-1)) ∧
          (∀ c, ['.', c] <+: ['.', '.', '5'] → c.isDigit = false) ∧
            at? "12..5" 2 = .ok none ∧
              (∀ row, row <+: charsFrom "12..5" 2 → row ≠ [] → ¬ InLanguage row) ∧
                ∃ refusal, at? "12..5" 9223372036854775808 = .error refusal ∧
                  refusal.kind = "OverflowError" := by
  have hread : at? "12..5" (-1) = .ok (some "12") := by decide +kernel
  have htext : charsFrom "12..5" (-1) = "12".toList ++ ['.', '.', '5'] := by decide +kernel
  have hpoint : '.' ∉ "12".toList := by decide +kernel
  have hnone : at? "12..5" 2 = .ok none := by decide +kernel
  obtain ⟨-, hlongest, -, hfollows⟩ := (longest_literal_at "12..5" (-1)).1 (by decide)
  obtain ⟨-, -, hnothing, -⟩ := (longest_literal_at "12..5" 2).1 (by decide)
  exact ⟨hread, htext, hpoint, (hlongest "12").1 hread, (hfollows _ _ hread htext).2 hpoint, hnone,
    hnothing.1 hnone, (longest_literal_at "12..5" 9223372036854775808).2 (by decide)⟩

/-- A position before the start of the text counts as its start, where a literal is. One that does
not fit into 64 bits does not count. -/
theorem distant_position_is_refused :
    IsLongest "1".toList (charsFrom "1" (-9223372036854775809)) ∧
      at? "1" (-9223372036854775809) = .error .positionOutOfRange ∧
        at? "1" (-9223372036854775809) ≠ .ok (some "1") := by
  have hstart : charsFrom "1" (-9223372036854775809) = charsFrom "1" 0 := by decide +kernel
  have hread : at? "1" 0 = .ok (some "1") := by decide +kernel
  have hrefused : at? "1" (-9223372036854775809) = .error .positionOutOfRange :=
    at?_of_not_fits (by decide)
  refine ⟨?_, hrefused, ?_⟩
  · rw [hstart]
    exact (at?_eq_some_iff (by decide)).1 hread
  · intro hfound
    cases hrefused.symm.trans hfound

end Reckoner.Literal
