/-!
# Texts as rows of code points

An escape in a file can name one half of a surrogate pair and leave out the other. Such a half is a
code point, but no character, so a text that was spelled with escapes is a row of code points. A
text of characters is one of them.

## Main results

* `Point.ofNat_toNat`: a code point is known by its number.
* `Points.toString?_eq_some_iff`: the texts of characters are exactly those without a half.
-/

namespace Reckoner.Text

/-- A code point: a character, or half of a surrogate pair that stands alone. -/
inductive Point where
  | char (c : Char)
  /-- The half whose number is `0xd800 + offset`. -/
  | half (offset : Fin 0x800)
deriving DecidableEq, Repr

namespace Point

/-- The number of a code point. -/
def toNat : Point → Nat
  | char c => c.toNat
  | half offset => 0xd800 + offset.val

/-- The code point with a number. -/
def ofNat (code : Nat) : Point :=
  if h : 0xd800 ≤ code ∧ code < 0xe000 then half ⟨code - 0xd800, by omega⟩
  else char (Char.ofNat code)

/-- The character that is shown for a code point: the replacement character for a half. -/
def shownChar : Point → Char
  | char c => c
  | half _ => '\ufffd'

end Point

/-- A text that may hold lone halves of surrogate pairs. -/
abbrev Points := List Point

namespace Points

/-- A text of characters. -/
def ofString (s : String) : Points := s.toList.map .char

instance : Coe String Points := ⟨ofString⟩

/-- The characters of a text, if it holds no half. -/
def chars? : Points → Option (List Char)
  | [] => some []
  | .char c :: rest => (chars? rest).map (c :: ·)
  | .half _ :: _ => none

/-- The text of characters that this is, if it holds no half. -/
def toString? (text : Points) : Option String := text.chars?.map String.ofList

/-- The text with the replacement character for every half. -/
def replaceHalves (text : Points) : String := String.ofList (text.map Point.shownChar)

end Points

/-! ## Laws -/

/-- The number of a character is that of no half. -/
private theorem toNat_not_half (c : Char) : ¬ (0xd800 ≤ c.toNat ∧ c.toNat < 0xe000) := by
  intro h
  have hvalid := c.valid
  have hval : c.val.toNat = c.toNat := rfl
  simp only [UInt32.isValidChar, Nat.isValidChar, hval] at hvalid
  omega

/-- A code point is known by its number. -/
theorem Point.ofNat_toNat (point : Point) : ofNat point.toNat = point := by
  cases point with
  | char c => simp [ofNat, toNat, toNat_not_half, Char.ofNat_toNat]
  | half offset =>
      have hlt := offset.isLt
      have hrange : 0xd800 ≤ 0xd800 + offset.val ∧ 0xd800 + offset.val < 0xe000 := by omega
      simp [ofNat, toNat, hrange]

namespace Points

@[simp] theorem ofString_inj {s t : String} : ofString s = ofString t ↔ s = t := by
  constructor
  · intro h
    have hchars := (List.map_inj_right fun _ _ => Point.char.inj).1 h
    exact String.toList_inj.1 hchars
  · rintro rfl
    rfl

/-- A text without a half is the row of its characters. -/
theorem chars?_eq_some_iff {text : Points} {cs : List Char} :
    text.chars? = some cs ↔ text = cs.map .char := by
  induction text generalizing cs with
  | nil => cases cs <;> simp [chars?]
  | cons point text ih =>
      cases point with
      | half offset => cases cs <;> simp [chars?]
      | char c =>
          cases cs with
          | nil => simp [chars?]
          | cons d cs =>
              simp only [chars?, Option.map_eq_some_iff, ih, List.map_cons, List.cons.injEq,
                Point.char.injEq]
              constructor
              · rintro ⟨rest, htext, rfl, rfl⟩
                exact ⟨rfl, htext⟩
              · rintro ⟨rfl, htext⟩
                exact ⟨cs, htext, rfl, rfl⟩

/-- The texts of characters are exactly those without a half. -/
theorem toString?_eq_some_iff {text : Points} {s : String} :
    text.toString? = some s ↔ text = ofString s := by
  simp only [toString?, Option.map_eq_some_iff, chars?_eq_some_iff, ofString]
  constructor
  · rintro ⟨cs, rfl, rfl⟩
    rw [String.toList_ofList]
  · rintro rfl
    exact ⟨s.toList, rfl, String.ofList_toList⟩

@[simp] theorem toString?_ofString (s : String) : (ofString s).toString? = some s :=
  toString?_eq_some_iff.2 rfl

end Points

end Reckoner.Text
