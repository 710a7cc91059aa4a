import Reckoner.Text.Points

/-!
# Lines

A text is cut at its line ends; what follows the last line end is a line only if it is not empty.
The same cut serves texts of characters and rows of code points.

## Main results

* `splitLines_append`: a line and its end are cut off together.
* `splitLines_unlines`: lines that hold no line end are the lines of the text they make up.
* `exists_lines_eq`: any such lines are those of some text.
-/

namespace Reckoner.Text

variable {α : Type} [DecidableEq α]

/-- The lines of a text; `current` holds the line that has begun, the last item first. -/
def splitLines (lineEnd : α) (current : List α) : List α → List (List α)
  | [] => if current.isEmpty then [] else [current.reverse]
  | c :: rest =>
      if c = lineEnd then current.reverse :: splitLines lineEnd [] rest
      else splitLines lineEnd (c :: current) rest

/-- The lines of a text of characters. -/
def lines (s : String) : List String := (splitLines '\n' [] s.toList).map String.ofList

/-- The lines of a row of code points. -/
def Points.lines (text : Points) : List Points := splitLines (.char '\n') [] text

/-- The text of lines, each with a line end. -/
def unlines (lineEnd : α) (lines : List (List α)) : List α := lines.flatMap (· ++ [lineEnd])

/-- A line and its end are cut off together. -/
theorem splitLines_append {lineEnd : α} {line : List α} (h : lineEnd ∉ line)
    (current rest : List α) :
    splitLines lineEnd current (line ++ lineEnd :: rest) =
      (current.reverse ++ line) :: splitLines lineEnd [] rest := by
  induction line generalizing current with
  | nil => simp [splitLines]
  | cons c line ih =>
      have hc : c ≠ lineEnd := fun heq => h (heq ▸ List.mem_cons_self)
      have hline : lineEnd ∉ line := fun hmem => h (List.mem_cons_of_mem _ hmem)
      simp [splitLines, hc, ih hline]

/-- Lines that hold no line end are the lines of the text they make up. -/
theorem splitLines_unlines {lineEnd : α} {lines : List (List α)}
    (h : ∀ line ∈ lines, lineEnd ∉ line) :
    splitLines lineEnd [] (unlines lineEnd lines) = lines := by
  induction lines with
  | nil => rfl
  | cons line lines ih =>
      have hline := h line List.mem_cons_self
      have hrest := ih fun other hmem => h other (List.mem_cons_of_mem _ hmem)
      simp only [unlines] at hrest ⊢
      simp [splitLines_append hline, hrest]

theorem exists_lines_eq {rows : List String} (h : ∀ row ∈ rows, '\n' ∉ row.toList) :
    ∃ text, lines text = rows := by
  refine ⟨String.ofList (unlines '\n' (rows.map String.toList)), ?_⟩
  rw [lines, String.toList_ofList, splitLines_unlines (List.forall_mem_map.2 h), List.map_map]
  exact (List.map_congr_left fun row _ => String.ofList_toList).trans (List.map_id rows)

end Reckoner.Text
