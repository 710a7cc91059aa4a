import Mathlib.Data.List.Chain
import Reckoner.Json.Reader
import Reckoner.Json.Writer

/-!
# Written strings are read back

A string is written as ASCII: a character stands for itself, has an escape of two characters, or is
spelled by its code units of UTF-16. The reader collects code units and joins pairs of surrogates
afterwards. Two halves that are side by side in the right order would be joined too, so a text is
read back as it was exactly if it has no such halves.

## Main results

* `readUnits_flatMap`: the units that are read are those of the code points.
* `joinUnits_flatMap`: joined, they are the code points.
* `readText_writeText`: a string is read back.
* `isJoined_joinUnits`: whatever is read has no halves left to join.
-/

namespace Reckoner.Text

/-- The half that a surrogate pair begins with. -/
def Point.IsHigh : Point → Prop
  | char _ => False
  | half offset => offset.val < 0x400

/-- The half that a surrogate pair ends with. -/
def Point.IsLow : Point → Prop
  | char _ => False
  | half offset => 0x400 ≤ offset.val

/-- No two halves side by side make up a surrogate pair. -/
def Points.IsJoined (text : Points) : Prop :=
  text.IsChain fun point next => ¬ (point.IsHigh ∧ next.IsLow)

theorem Point.isHigh_ofNat_iff (code : Nat) :
    (ofNat code).IsHigh ↔ 0xd800 ≤ code ∧ code < 0xdc00 := by
  unfold ofNat
  split
  · simp only [IsHigh]
    omega
  · simp only [IsHigh, false_iff]
    omega

theorem Point.isLow_ofNat_iff (code : Nat) :
    (ofNat code).IsLow ↔ 0xdc00 ≤ code ∧ code < 0xe000 := by
  unfold ofNat
  split
  · simp only [IsLow]
    omega
  · simp only [IsLow, false_iff]
    omega

/-- A text of characters has no halves. -/
theorem Points.isJoined_ofString (s : String) : (ofString s).IsJoined := by
  rw [IsJoined, ofString, List.isChain_map]
  exact List.isChain_iff_getElem.2 fun _ _ hpair => hpair.1

end Reckoner.Text

namespace Reckoner.Json

open Text (Point Points)

/-- The code units of a character in UTF-16. -/
def unitsOf (c : Char) : List Nat :=
  if c.toNat < 0x10000 then [c.toNat]
  else [0xd800 + (c.toNat - 0x10000) / 0x400, 0xdc00 + (c.toNat - 0x10000) % 0x400]

/-- The code units of a code point: a half is a unit of its own. -/
def pointUnits : Point → List Nat
  | .char c => unitsOf c
  | .half offset => [(Point.half offset).toNat]

/-- What follows the next code units that are read. -/
def prependUnits (units : List Nat) (result : Read (List Nat)) : Read (List Nat) :=
  result.map fun (more, rest) => (units ++ more, rest)

/-! ## Escapes -/

theorem hexDigits_four (unit : Nat) :
    Text.hexDigits 4 unit =
      [Text.hexDigit (unit / 16 / 16 / 16 % 16), Text.hexDigit (unit / 16 / 16 % 16),
        Text.hexDigit (unit / 16 % 16), Text.hexDigit (unit % 16)] := rfl

/-- An escape of a code unit is read as the unit. -/
theorem readUnits_unitEscape {unit : Nat} (h : unit < 0x10000) (rest : List Char) :
    readUnits (unitEscape unit ++ rest) = prependUnits [unit] (readUnits rest) := by
  have hdigit : ∀ n, Text.hexValue? (Text.hexDigit (n % 16)) = some (n % 16) := fun n =>
    Text.hexValue?_hexDigit _ (Nat.mod_lt n (by decide))
  have hunit : hexUnit? (Text.hexDigit (unit / 16 / 16 / 16 % 16))
      (Text.hexDigit (unit / 16 / 16 % 16)) (Text.hexDigit (unit / 16 % 16))
      (Text.hexDigit (unit % 16)) = some unit := by
    simp only [hexUnit?, hdigit, Option.bind_eq_bind, Option.bind_some, Option.pure_def,
      Option.some.injEq]
    omega
  rw [unitEscape, hexDigits_four]
  simp only [List.cons_append, List.nil_append]
  rw [readUnits, hunit]
  rfl

/-- A short escape is read as the character it stands for. -/
theorem readUnits_shortEscape {c : Char} {code : Nat} (hletter : c ≠ 'u')
    (h : shortEscape? c = some code) (rest : List Char) :
    readUnits ('\\' :: c :: rest) = prependUnits [code] (readUnits rest) := by
  rw [readUnits, h]
  · rfl
  · rintro a b d e others rfl
    exact absurd rfl hletter

/-- A plain character is read as it is. -/
theorem readUnits_plain {c : Char} (hquote : c ≠ '"') (hslash : c ≠ '\\') (hspace : 0x20 ≤ c.toNat)
    (rest : List Char) : readUnits (c :: rest) = prependUnits [c.toNat] (readUnits rest) := by
  rw [readUnits, if_neg]
  · rfl
  · rintro (hcontrol | rfl)
    · omega
    · exact hslash rfl
  · exact hquote
  · rintro a b d e others rfl
    exact absurd rfl hslash
  · rintro other others rfl
    exact absurd rfl hslash

/-! ## Characters -/

theorem toNat_lt (c : Char) : c.toNat < 0x110000 := by
  have hvalid := c.valid
  have hval : c.val.toNat = c.toNat := rfl
  simp only [UInt32.isValidChar, Nat.isValidChar, hval] at hvalid
  omega

/-- A written character is read as its code units. -/
theorem readUnits_escapedChar (c : Char) (rest : List Char) :
    readUnits (escapedChar c ++ rest) = prependUnits (unitsOf c) (readUnits rest) := by
  have hlimit := toNat_lt c
  have hunit : c.toNat < 0x10000 → unitsOf c = [c.toNat] := fun h => if_pos h
  by_cases hquote : c = '"'
  · subst hquote
    exact readUnits_shortEscape (by decide) rfl rest
  by_cases hslash : c = '\\'
  · subst hslash
    exact readUnits_shortEscape (by decide) rfl rest
  by_cases hline : c = '\n'
  · subst hline
    exact readUnits_shortEscape (by decide) rfl rest
  by_cases hreturn : c = '\r'
  · subst hreturn
    exact readUnits_shortEscape (by decide) rfl rest
  by_cases htab : c = '\t'
  · subst htab
    exact readUnits_shortEscape (by decide) rfl rest
  rw [escapedChar, if_neg hquote, if_neg hslash, if_neg hline, if_neg hreturn, if_neg htab]
  by_cases hback : c.toNat = 0x8
  · rw [if_pos hback, hunit (by omega), hback]
    exact readUnits_shortEscape (by decide) rfl rest
  by_cases hfeed : c.toNat = 0xc
  · rw [if_neg hback, if_pos hfeed, hunit (by omega), hfeed]
    exact readUnits_shortEscape (by decide) rfl rest
  rw [if_neg hback, if_neg hfeed]
  by_cases hplain : 0x20 ≤ c.toNat ∧ c.toNat < 0x7f
  · rw [if_pos hplain, hunit (by omega)]
    exact readUnits_plain hquote hslash hplain.1 rest
  rw [if_neg hplain]
  by_cases hsmall : c.toNat < 0x10000
  · rw [if_pos hsmall, hunit hsmall]
    exact readUnits_unitEscape hsmall rest
  · rw [if_neg hsmall, unitsOf, if_neg hsmall, List.append_assoc,
      readUnits_unitEscape (by omega), readUnits_unitEscape (by omega)]
    cases readUnits rest <;> rfl

/-- A written code point is read as its code units. -/
theorem readUnits_escapedPoint (point : Point) (rest : List Char) :
    readUnits (escapedPoint point ++ rest) = prependUnits (pointUnits point) (readUnits rest) := by
  cases point with
  | char c => exact readUnits_escapedChar c rest
  | half offset =>
      have hlimit := offset.isLt
      exact readUnits_unitEscape (by simp only [Point.toNat]; omega) rest

/-- The units that are read are those of the code points. -/
theorem readUnits_flatMap (text : Points) (rest : List Char) :
    readUnits (text.flatMap escapedPoint ++ '"' :: rest) = .ok (text.flatMap pointUnits, rest) := by
  induction text with
  | nil => rw [List.flatMap_nil, List.nil_append, readUnits]; rfl
  | cons point text ih =>
      rw [List.flatMap_cons, List.append_assoc, readUnits_escapedPoint, ih]
      rfl

/-! ## Surrogates -/

/-- The numbers of the halves that a surrogate pair begins with, and of those that it ends with. -/
def IsPair (high low : Nat) : Prop :=
  0xd800 ≤ high ∧ high < 0xdc00 ∧ 0xdc00 ≤ low ∧ low < 0xe000

/-- A unit that makes up no pair with the next one is a code point of its own. -/
theorem joinUnits_cons {unit : Nat} {units : List Nat}
    (h : ∀ next ∈ units.head?, ¬ IsPair unit next) :
    joinUnits (unit :: units) = .ofNat unit :: joinUnits units := by
  cases units with
  | nil => rfl
  | cons next units => exact if_neg (h next rfl)

theorem joinUnits_unitsOf (c : Char) (units : List Nat) :
    joinUnits (unitsOf c ++ units) = .char c :: joinUnits units := by
  have hlimit := toNat_lt c
  rw [unitsOf]
  by_cases hsmall : c.toNat < 0x10000
  · have hvalid := Point.ofNat_toNat (.char c)
    have hhalf : ¬ (0xd800 ≤ c.toNat ∧ c.toNat < 0xdc00) := by
      rintro ⟨hlow, hhigh⟩
      rw [Point.toNat, Point.ofNat, dif_pos ⟨hlow, by omega⟩] at hvalid
      cases hvalid
    rw [if_pos hsmall, List.singleton_append, joinUnits_cons]
    · exact congrArg (· :: joinUnits units) hvalid
    · rintro next - ⟨hlow, hhigh, -⟩
      exact hhalf ⟨hlow, hhigh⟩
  · have hcode : 0x10000 + (0xd800 + (c.toNat - 0x10000) / 0x400 - 0xd800) * 0x400 +
        (0xdc00 + (c.toNat - 0x10000) % 0x400 - 0xdc00) = c.toNat := by omega
    rw [if_neg hsmall]
    simp only [List.cons_append, List.nil_append]
    rw [joinUnits, if_pos (by omega), hcode, Char.ofNat_toNat]

/-- The first unit of a code point is a low surrogate only if the code point is one. -/
theorem isLow_of_head?_pointUnits {point : Point} {unit : Nat}
    (h : (pointUnits point).head? = some unit) (hunit : 0xdc00 ≤ unit ∧ unit < 0xe000) :
    point.IsLow := by
  have hpoint := Point.isLow_ofNat_iff point.toNat
  rw [Point.ofNat_toNat] at hpoint
  refine hpoint.2 ?_
  cases point with
  | half offset =>
      obtain rfl := Option.some.inj h
      exact hunit
  | char c =>
      have hlimit := toNat_lt c
      rw [pointUnits, unitsOf] at h
      split at h
      · obtain rfl := Option.some.inj h
        exact hunit
      · obtain rfl := Option.some.inj h
        omega

/-- The first code point is a low surrogate only if the first unit is one. -/
theorem of_isLow_of_head?_joinUnits {unit : Nat} {units : List Nat} {point : Point}
    (h : (joinUnits (unit :: units)).head? = some point) (hpoint : point.IsLow) :
    0xdc00 ≤ unit ∧ unit < 0xe000 := by
  have hsingle : point = .ofNat unit → 0xdc00 ≤ unit ∧ unit < 0xe000 := by
    rintro rfl
    exact (Point.isLow_ofNat_iff unit).1 hpoint
  cases units with
  | nil => exact hsingle (Option.some.inj h).symm
  | cons next units =>
      rw [joinUnits] at h
      split at h
      · obtain rfl := Option.some.inj h
        exact hpoint.elim
      · exact hsingle (Option.some.inj h).symm

/-- Joined, the units of a text are its code points, if there are no halves left to join. -/
theorem joinUnits_flatMap {text : Points} (h : text.IsJoined) :
    joinUnits (text.flatMap pointUnits) = text := by
  induction text with
  | nil => rfl
  | cons point text ih =>
      have hrest := ih h.tail
      cases point with
      | char c => rw [List.flatMap_cons, pointUnits, joinUnits_unitsOf, hrest]
      | half offset =>
          have hpoint := Point.ofNat_toNat (.half offset)
          rw [List.flatMap_cons, pointUnits, List.singleton_append, joinUnits_cons, hrest, hpoint]
          rintro unit hunit ⟨hhigh, hhigh', hlow⟩
          cases text with
          | nil => cases hunit
          | cons next text =>
              have hhead : (pointUnits next).head? = some unit := by
                rwa [List.flatMap_cons, List.head?_append, Option.or_of_isSome] at hunit
                cases next <;> simp only [pointUnits, unitsOf]
                · split <;> rfl
                · rfl
              refine (List.isChain_cons_cons.1 h).1 ⟨?_, isLow_of_head?_pointUnits hhead hlow⟩
              simp only [Point.toNat] at hhigh'
              show offset.val < 0x400
              omega

/-- A text is read back after its opening quote. -/
theorem readText_writeText {text : Points} (h : text.IsJoined) (rest : List Char) :
    ∃ body, writeText text = '"' :: body ∧ readText (body ++ rest) = .ok (text, rest) := by
  refine ⟨_, rfl, ?_⟩
  rw [List.append_assoc, List.singleton_append, readText, readUnits_flatMap]
  show Except.ok (joinUnits (text.flatMap pointUnits), rest) = _
  rw [joinUnits_flatMap h]

/-! ## Reading -/

/-- Whatever units are joined, no halves are left to join. -/
theorem isJoined_joinUnits (units : List Nat) : (joinUnits units).IsJoined := by
  fun_induction joinUnits units with
  | case1 high low rest hpair ih =>
      refine List.isChain_cons.2 ⟨?_, ih⟩
      rintro next - ⟨hhigh, -⟩
      exact hhigh
  | case2 high low rest hpair ih =>
      refine List.isChain_cons.2 ⟨?_, ih⟩
      rintro next hnext ⟨hhigh, hlow⟩
      obtain ⟨hstart, hend⟩ := (Point.isHigh_ofNat_iff high).1 hhigh
      exact hpair ⟨hstart, hend, of_isLow_of_head?_joinUnits hnext hlow⟩
  | case3 unit => exact List.isChain_singleton _
  | case4 => exact List.isChain_nil

/-- A text that was read has no halves left to join. -/
theorem isJoined_of_readText {cs rest : List Char} {text : Points}
    (h : readText cs = .ok (text, rest)) : text.IsJoined := by
  rw [readText] at h
  cases hunits : readUnits cs with
  | error fault =>
      rw [hunits] at h
      cases h
  | ok read =>
      rw [hunits] at h
      obtain ⟨rfl, -⟩ := Prod.mk.inj (Except.ok.inj h)
      exact isJoined_joinUnits _

end Reckoner.Json
