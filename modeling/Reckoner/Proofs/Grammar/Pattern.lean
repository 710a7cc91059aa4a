import Mathlib.Data.List.Infix

/-!
# Patterns of characters

A pattern is a row of pieces, and a piece is a class of characters with the number of times that one
of them may stand there. One text can begin with many rows that belong to a pattern. A search tries
them in a fixed order: every piece takes a character as long as it can, and gives the last one back
only where the pieces behind it find nothing. The first row that belongs to the pattern ends it.

Nothing in the search compares lengths, and yet the first row is the longest. Whatever other row the
text begins with, the pieces that are left for the rest of that row are the last ones of those that
are left for the search, so the search can still go at least as far. The induction carries this for
every end part of the pattern.

## Main results

* `matches_cons_cons`: the rows of a pattern, by their first character.
* `search?_sound`, `search?_complete`: a row that is found belongs to the pattern, and one is found
  where the text begins with any.
* `length_le_of_search?`: no row of an end part of the pattern goes further than what is found.
* `search?_eq_some_iff`: what is found is the longest row of the pattern that the text begins with.
-/

namespace Reckoner.Pattern

/-- How often a character may stand. -/
inductive Times where
  | once
  | atMostOnce
  | anyTimes
deriving DecidableEq

/-- A piece of a pattern: a class of characters, and how often one of them may stand. -/
structure Piece where
  admits : Char → Bool
  times : Times

namespace Piece

/-- Whether a piece may be left out. -/
def isOptional (piece : Piece) : Bool := piece.times != .once

/-- What is left of a piece behind a character that it has taken. -/
def rest (piece : Piece) : List Piece := if piece.times = .anyTimes then [piece] else []

/-- The rows of characters that a piece stands for. -/
def Covers (piece : Piece) (row : List Char) : Prop :=
  (∀ c ∈ row, piece.admits c = true) ∧
    match piece.times with
    | .once => row.length = 1
    | .atMostOnce => row.length ≤ 1
    | .anyTimes => True

end Piece

/-- The rows that belong to a pattern: one row for each piece, one behind the other. -/
def Matches : List Piece → List Char → Prop
  | [], row => row = []
  | piece :: pieces, row => ∃ front back, row = front ++ back ∧ piece.Covers front ∧
      Matches pieces back

/-- The first row of a pattern that the search finds at the start of a text, and what follows it. A
piece that may take the next character takes it. Only if nothing is found behind that, and the piece
may be left out, are the pieces behind it tried on the same text. -/
def search? : List Piece → List Char → Option (List Char × List Char)
  | [], text => some ([], text)
  | piece :: pieces, [] => if piece.isOptional then search? pieces [] else none
  | piece :: pieces, c :: text =>
      (if piece.admits c then
        (search? (piece.rest ++ pieces) text).map fun parts => (c :: parts.1, parts.2)
      else none).or (if piece.isOptional then search? pieces (c :: text) else none)
termination_by pieces text => (text.length, pieces.length)

/-! ## The rows of a pattern -/

section Rows

variable {piece : Piece} {pieces : List Piece} {c : Char} {row : List Char}

theorem covers_nil : piece.Covers [] ↔ piece.isOptional = true := by
  rcases piece with ⟨admits, times⟩
  cases times <;> simp [Piece.Covers, Piece.isOptional]

/-- A piece takes the first character, and what is left of the piece takes the others. -/
theorem covers_cons :
    piece.Covers (c :: row) ↔ piece.admits c = true ∧ Matches piece.rest row := by
  rcases piece with ⟨admits, times⟩
  cases times with
  | once => simp +contextual [Piece.Covers, Piece.rest, Matches]
  | atMostOnce => simp +contextual [Piece.Covers, Piece.rest, Matches]
  | anyTimes => simp [Piece.Covers, Piece.rest, Matches]

theorem matches_append {front back : List Piece} :
    Matches (front ++ back) row ↔
      ∃ first second, row = first ++ second ∧ Matches front first ∧ Matches back second := by
  induction front generalizing row with
  | nil => simp [Matches]
  | cons piece front ih =>
      simp only [List.cons_append, Matches, ih]
      constructor
      · rintro ⟨first, _, rfl, hfirst, second, third, rfl, hsecond, hthird⟩
        exact ⟨first ++ second, third, by simp, ⟨first, second, rfl, hfirst, hsecond⟩, hthird⟩
      · rintro ⟨_, third, rfl, ⟨first, second, rfl, hfirst, hsecond⟩, hthird⟩
        exact ⟨first, second ++ third, by simp, hfirst, second, third, rfl, hsecond, hthird⟩

theorem matches_cons_nil :
    Matches (piece :: pieces) [] ↔ piece.isOptional = true ∧ Matches pieces [] := by
  simp [Matches, covers_nil]

/-- The first character of a row is taken by the first piece, or the first piece is left out. -/
theorem matches_cons_cons :
    Matches (piece :: pieces) (c :: row) ↔
      (piece.admits c = true ∧ Matches (piece.rest ++ pieces) row) ∨
        (piece.isOptional = true ∧ Matches pieces (c :: row)) := by
  constructor
  · rintro ⟨front, back, hrow, hfront, hback⟩
    cases front with
    | nil =>
        obtain rfl : c :: row = back := hrow
        exact Or.inr ⟨covers_nil.1 hfront, hback⟩
    | cons d front =>
        obtain ⟨rfl, rfl⟩ := List.cons.inj hrow
        obtain ⟨hadmits, hrest⟩ := covers_cons.1 hfront
        exact Or.inl ⟨hadmits, matches_append.2 ⟨front, back, rfl, hrest, hback⟩⟩
  · rintro (⟨hadmits, hrow⟩ | ⟨hoptional, hrow⟩)
    · obtain ⟨front, back, rfl, hrest, hback⟩ := matches_append.1 hrow
      exact ⟨c :: front, back, rfl, covers_cons.2 ⟨hadmits, hrest⟩, hback⟩
    · exact ⟨[], c :: row, rfl, covers_nil.2 hoptional, hrow⟩

/-- What is left once the first piece has taken a character is an end part of the pattern. -/
theorem rest_append_suffix : piece.rest ++ pieces <:+ piece :: pieces := by
  unfold Piece.rest
  split
  · exact List.suffix_refl _
  · exact List.suffix_cons _ _

/-- Behind its first character, a row of an end part of a pattern belongs to an end part of what is
left of the pattern once its first piece has taken a character. -/
theorem exists_matches_behind {later : List Piece} (hlater : later <:+ piece :: pieces)
    (h : Matches later (c :: row)) :
    ∃ begun, begun <:+ piece.rest ++ pieces ∧ Matches begun row := by
  induction later with
  | nil => cases h
  | cons first later ih =>
      rcases matches_cons_cons.1 h with ⟨-, hrow⟩ | ⟨-, hrow⟩
      · refine ⟨first.rest ++ later, ?_, hrow⟩
        rcases List.suffix_cons_iff.1 hlater with hsame | hbehind
        · obtain ⟨rfl, rfl⟩ := List.cons.inj hsame
          exact List.suffix_refl _
        · -- what is left of a piece further on stands behind the first piece as well
          exact rest_append_suffix.trans (hbehind.trans (List.suffix_append _ _))
      · exact ih ((List.suffix_cons first later).trans hlater) hrow

end Rows

/-! ## What the search finds -/

section Search

variable {pieces later : List Piece} {text row rest : List Char}

/-- A row that is found belongs to the pattern, and the text begins with it. -/
theorem search?_sound (h : search? pieces text = some (row, rest)) :
    Matches pieces row ∧ text = row ++ rest := by
  fun_induction search? pieces text generalizing row with
  | case1 text =>
      obtain ⟨rfl, rfl⟩ := Prod.mk.inj (Option.some.inj h)
      exact ⟨rfl, rfl⟩
  | case2 piece pieces hoptional ih =>
      obtain ⟨hrow, htext⟩ := ih h
      obtain ⟨rfl, -⟩ := List.append_eq_nil_iff.1 htext.symm
      exact ⟨matches_cons_nil.2 ⟨hoptional, hrow⟩, htext⟩
  | case3 => cases h
  | case4 piece pieces c text ihtaken ihskipped =>
      rcases Option.or_eq_some_iff.1 h with hfound | ⟨-, hfound⟩
      · obtain ⟨hadmits, hfound⟩ := Option.ite_none_right_eq_some.1 hfound
        obtain ⟨⟨behind, after⟩, hsearch, hparts⟩ := Option.map_eq_some_iff.1 hfound
        obtain ⟨rfl, rfl⟩ := Prod.mk.inj hparts
        obtain ⟨hrow, htext⟩ := ihtaken hsearch
        exact ⟨matches_cons_cons.2 (Or.inl ⟨hadmits, hrow⟩), congrArg (c :: ·) htext⟩
      · obtain ⟨hoptional, hsearch⟩ := Option.ite_none_right_eq_some.1 hfound
        obtain ⟨hrow, htext⟩ := ihskipped hsearch
        refine ⟨?_, htext⟩
        cases row with
        | nil => exact matches_cons_nil.2 ⟨hoptional, hrow⟩
        | cons d row => exact matches_cons_cons.2 (Or.inr ⟨hoptional, hrow⟩)

/-- Something is found where the text begins with a row of the pattern. -/
theorem search?_complete (hrow : row <+: text) (h : Matches pieces row) :
    ∃ parts, search? pieces text = some parts := by
  rw [← Option.isSome_iff_exists]
  fun_induction search? pieces text generalizing row with
  | case1 => rfl
  | case2 piece pieces hoptional ih =>
      obtain rfl := List.prefix_nil.1 hrow
      exact ih (List.prefix_refl []) (matches_cons_nil.1 h).2
  | case3 piece pieces hoptional =>
      obtain rfl := List.prefix_nil.1 hrow
      exact absurd (matches_cons_nil.1 h).1 hoptional
  | case4 piece pieces c text ihtaken ihskipped =>
      rw [Option.isSome_or, Bool.or_eq_true]
      cases row with
      | nil =>
          obtain ⟨hoptional, hpieces⟩ := matches_cons_nil.1 h
          rw [if_pos hoptional]
          exact Or.inr (ihskipped List.nil_prefix hpieces)
      | cons d row =>
          obtain ⟨rfl, hbehind⟩ := List.cons_prefix_cons.1 hrow
          rcases matches_cons_cons.1 h with ⟨hadmits, hpieces⟩ | ⟨hoptional, hpieces⟩
          · rw [if_pos hadmits, Option.isSome_map]
            exact Or.inl (ihtaken hbehind hpieces)
          · rw [if_pos hoptional]
            exact Or.inr (ihskipped hrow hpieces)

/-- No row of an end part of the pattern goes further than what is found for the pattern. -/
theorem length_le_of_search? (h : search? pieces text = some (row, rest))
    (hlater : later <:+ pieces) {other : List Char} (hother : other <+: text)
    (hmatches : Matches later other) : other.length ≤ row.length := by
  fun_induction search? pieces text generalizing row later other with
  | case1 text =>
      obtain rfl := List.suffix_nil.1 hlater
      obtain rfl : other = [] := hmatches
      exact Nat.zero_le _
  | case2 piece pieces hoptional ih =>
      obtain rfl := List.prefix_nil.1 hother
      exact Nat.zero_le _
  | case3 => cases h
  | case4 piece pieces c text ihtaken ihskipped =>
      cases other with
      | nil => exact Nat.zero_le _
      | cons d other =>
          obtain ⟨rfl, hbehind⟩ := List.cons_prefix_cons.1 hother
          rcases Option.or_eq_some_iff.1 h with hfound | ⟨hnone, hfound⟩
          · obtain ⟨-, hfound⟩ := Option.ite_none_right_eq_some.1 hfound
            obtain ⟨⟨behind, after⟩, hsearch, hparts⟩ := Option.map_eq_some_iff.1 hfound
            obtain ⟨rfl, rfl⟩ := Prod.mk.inj hparts
            obtain ⟨begun, hbegun, hrow⟩ := exists_matches_behind hlater hmatches
            exact Nat.succ_le_succ (ihtaken hsearch hbegun hbehind hrow)
          · obtain ⟨-, hsearch⟩ := Option.ite_none_right_eq_some.1 hfound
            rcases List.suffix_cons_iff.1 hlater with rfl | hsuffix
            · rcases matches_cons_cons.1 hmatches with ⟨hadmits, hrow⟩ | ⟨-, hrow⟩
              · -- the piece was left out because nothing is found behind the character
                obtain ⟨parts, hparts⟩ := search?_complete hbehind hrow
                simp [hadmits, hparts] at hnone
              · exact ihskipped hsearch (List.suffix_refl _) hother hrow
            · exact ihskipped hsearch hsuffix hother hmatches

/-- What is found is the longest row of the pattern that the text begins with. -/
theorem search?_eq_some_iff :
    search? pieces text = some (row, rest) ↔
      Matches pieces row ∧ text = row ++ rest ∧
        ∀ other, other <+: text → Matches pieces other → other.length ≤ row.length := by
  constructor
  · intro h
    obtain ⟨hrow, htext⟩ := search?_sound h
    exact ⟨hrow, htext, fun other => length_le_of_search? h (List.suffix_refl pieces)⟩
  · rintro ⟨hrow, htext, hlongest⟩
    have hstarts : row <+: text := ⟨rest, htext.symm⟩
    obtain ⟨⟨found, after⟩, hsearch⟩ := search?_complete hstarts hrow
    obtain ⟨hfound, hafter⟩ := search?_sound hsearch
    have hle := length_le_of_search? hsearch (List.suffix_refl pieces) hstarts hrow
    have hge := hlongest found ⟨after, hafter.symm⟩ hfound
    obtain ⟨rfl, rfl⟩ := List.append_inj (hafter.symm.trans htext) (by omega)
    exact hsearch

end Search

end Reckoner.Pattern
