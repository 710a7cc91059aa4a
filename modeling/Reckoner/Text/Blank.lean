import Reckoner.Text.Ranges

/-!
# Blank characters

The characters that separate words: the space, the tabulators and line ends, the four information
separators, and the space, line and paragraph separators of Unicode.

## Main results

* `dropBlanks_no_blank`: text without its blanks has none.
-/

namespace Reckoner.Text

/-- The code points of the blank characters. -/
def blankRanges : List (Nat × Nat) :=
  [(0x9, 0xd), (0x1c, 0x20), (0x85, 0x85), (0xa0, 0xa0), (0x1680, 0x1680), (0x2000, 0x200a),
   (0x2028, 0x2029), (0x202f, 0x202f), (0x205f, 0x205f), (0x3000, 0x3000)]

def isBlank (c : Char) : Bool := inRanges c.toNat blankRanges

/-- The text without any of its blanks. -/
def dropBlanks (cs : List Char) : List Char := cs.filter fun c => !isBlank c

/-- The text without what the predicate admits at its start and end. -/
def trimBy (drops : Char → Bool) (cs : List Char) : List Char :=
  ((cs.dropWhile drops).reverse.dropWhile drops).reverse

/-- The text without the blanks at its start and end. -/
def trim (s : String) : String := String.ofList (trimBy isBlank s.toList)

section DropBlanks

variable {c : Char} {cs : List Char}

theorem dropBlanks_no_blank (cs : List Char) : ∀ c ∈ dropBlanks cs, isBlank c = false := by
  intro c hc
  simpa using (List.mem_filter.1 hc).2

theorem dropBlanks_append (front back : List Char) :
    dropBlanks (front ++ back) = dropBlanks front ++ dropBlanks back :=
  List.filter_append front back

theorem dropBlanks_of_no_blank (h : ∀ c ∈ cs, isBlank c = false) : dropBlanks cs = cs := by
  rw [dropBlanks, List.filter_eq_self]
  intro c hc
  simp [h c hc]

theorem dropBlanks_of_blank (h : ∀ c ∈ cs, isBlank c = true) : dropBlanks cs = [] := by
  simpa [dropBlanks] using h

theorem dropBlanks_cons_of_blank (h : isBlank c = true) :
    dropBlanks (c :: cs) = dropBlanks cs := List.filter_cons_of_neg (by simp [h])

theorem dropBlanks_cons_of_not_blank (h : isBlank c = false) :
    dropBlanks (c :: cs) = c :: dropBlanks cs := List.filter_cons_of_pos (by simp [h])

theorem dropBlanks_idem (cs : List Char) : dropBlanks (dropBlanks cs) = dropBlanks cs :=
  dropBlanks_of_no_blank (dropBlanks_no_blank cs)

end DropBlanks

end Reckoner.Text
