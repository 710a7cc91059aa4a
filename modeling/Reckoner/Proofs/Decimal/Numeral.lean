import Reckoner.Decimal.Reading
import Reckoner.Proofs.Decimal.Written
import Reckoner.Proofs.Grammar.Spelling

/-!
# Written numbers are read back

The readers of numbers cut a text into the parts in which it was written: digits, a point with
digits behind it, an exponent. A literal is a number written without an exponent.

## Main results

* `readBinary64?_chars`: a written number is read as the binary64 number nearest to its decimal.
* `isLiteral_chars`, `decimal_chars`: without an exponent it is a literal of the same decimal.
* `IsNumeral.eq_of_chars`: no two written numbers have the same characters.
-/

namespace Reckoner

namespace Written

open Decimal Layout

/-! ## The parts of a text -/

/-- Nothing that could go on with a number. -/
def EndsNumeral (rest : List Char) : Prop :=
  ∀ c, rest.head? = some c → c.isDigit = false ∧ c ≠ '.' ∧ c ≠ 'e' ∧ c ≠ 'E'

theorem endsNumeral_nil : EndsNumeral [] := by
  intro c hc
  cases hc

section Parts

variable {w : Written} {rest : List Char}

theorem readExponent_exponentChars (e : Int)
    (hrest : ∀ c, rest.head? = some c → c.isDigit = false) :
    readExponent (exponentChars e ++ rest) = (some e, rest) := by
  have hdigits : ∀ c ∈ zeros (2 - (digitsOf e.natAbs).length) ++ digitsOf e.natAbs,
      c.isDigit = true := by
    intro c hc
    rcases List.mem_append.1 hc with hc | hc
    · exact isDigit_of_mem_zeros c hc
    · exact isDigit_of_mem_digitsOf _ c hc
  have hvalue : digitsValue (zeros (2 - (digitsOf e.natAbs).length) ++ digitsOf e.natAbs) =
      e.natAbs := by
    rw [digitsValue_zeros_append, digitsValue_digitsOf]
  have hne : zeros (2 - (digitsOf e.natAbs).length) ++ digitsOf e.natAbs ≠ [] := by
    simp [digitsOf_ne_nil]
  simp only [exponentChars]
  generalize zeros (2 - (digitsOf e.natAbs).length) ++ digitsOf e.natAbs = digits at *
  have hempty : digits.isEmpty = false := by simpa using hne
  have hsigned : signedInt (decide (e < 0)) e.natAbs = e := by
    by_cases h : e < 0
    · rw [decide_eq_true h, signedInt, if_pos rfl]
      omega
    · rw [decide_eq_false h, signedInt, if_neg (by decide)]
      omega
  by_cases h : e < 0
  · simp only [h, decide_true] at hsigned
    simp [readExponent, splitSign, h, Literal.takeWhile_digits hdigits hrest,
      Literal.dropWhile_digits hdigits hrest, hempty, hvalue, hsigned]
  · simp only [h, decide_false] at hsigned
    simp [readExponent, splitSign, h, Literal.takeWhile_digits hdigits hrest,
      Literal.dropWhile_digits hdigits hrest, hempty, hvalue, hsigned]

theorem readExponent_powerChars (exponent? : Option Int) (hrest : EndsNumeral rest) :
    readExponent (powerChars exponent? ++ rest) = (exponent?, rest) := by
  cases exponent? with
  | some e => exact readExponent_exponentChars e fun c hc => (hrest c hc).1
  | none =>
      cases rest with
      | nil => rfl
      | cons c rest =>
          have hends := hrest c rfl
          simp [powerChars, readExponent, hends.2.2.1, hends.2.2.2]

/-- Behind the digits stands neither a digit nor a point. -/
theorem head?_powerChars (exponent? : Option Int) (hrest : EndsNumeral rest) :
    ∀ c, (powerChars exponent? ++ rest).head? = some c → c.isDigit = false ∧ c ≠ '.' := by
  intro c hc
  cases exponent? with
  | some e =>
      obtain rfl : 'e' = c := Option.some.inj hc
      decide
  | none => exact ⟨(hrest c hc).1, (hrest c hc).2.1⟩

/-- Behind the digits before the point stands no digit. -/
theorem head?_pointChars (fraction : List Char) (exponent? : Option Int)
    (hrest : EndsNumeral rest) :
    ∀ c, (pointChars fraction ++ (powerChars exponent? ++ rest)).head? = some c →
      c.isDigit = false := by
  intro c hc
  cases fraction with
  | nil => exact (head?_powerChars exponent? hrest c hc).1
  | cons digit fraction =>
      obtain rfl : '.' = c := Option.some.inj hc
      rfl

theorem chars_append (w : Written) (rest : List Char) :
    w.chars ++ rest =
      w.whole ++ (pointChars w.fraction ++ (powerChars w.exponent? ++ rest)) := by
  simp only [chars, List.append_assoc]

theorem IsNumeral.takeWhile_chars (h : w.IsNumeral) (hrest : EndsNumeral rest) :
    (w.chars ++ rest).takeWhile Char.isDigit = w.whole := by
  rw [chars_append]
  exact Literal.takeWhile_digits h.isDigit_whole (head?_pointChars _ _ hrest)

theorem IsNumeral.dropWhile_chars (h : w.IsNumeral) (hrest : EndsNumeral rest) :
    (w.chars ++ rest).dropWhile Char.isDigit =
      pointChars w.fraction ++ (powerChars w.exponent? ++ rest) := by
  rw [chars_append]
  exact Literal.dropWhile_digits h.isDigit_whole (head?_pointChars _ _ hrest)

end Parts

/-! ## The generous reader -/

section Generous

variable {w : Written}

/-- A character of a written number, or a sign. -/
def IsNumeralChar (c : Char) : Prop := c.isDigit = true ∨ c ∈ ['.', 'e', '+', '-']

theorem isNumeralChar_of_mem_exponentChars {e : Int} :
    ∀ c ∈ exponentChars e, IsNumeralChar c := by
  intro c hc
  rcases List.mem_cons.1 hc with rfl | hc
  · exact Or.inr (by decide)
  rcases List.mem_cons.1 hc with rfl | hc
  · by_cases h : e < 0 <;> simp [h, IsNumeralChar]
  rcases List.mem_append.1 hc with hc | hc
  · exact Or.inl (isDigit_of_mem_zeros c hc)
  · exact Or.inl (isDigit_of_mem_digitsOf _ c hc)

theorem IsNumeral.isNumeralChar (h : w.IsNumeral) : ∀ c ∈ w.chars, IsNumeralChar c := by
  intro c hc
  rcases List.mem_append.1 hc with hc | hc
  · exact Or.inl (h.isDigit_whole c hc)
  rcases List.mem_append.1 hc with hc | hc
  · rw [pointChars] at hc
    split at hc
    · cases hc
    · rcases List.mem_cons.1 hc with rfl | hc
      · exact Or.inr (by decide)
      · exact Or.inl (h.isDigit_fraction c hc)
  · cases hexponent : w.exponent? with
    | none =>
        rw [hexponent] at hc
        cases hc
    | some e =>
        rw [hexponent] at hc
        exact isNumeralChar_of_mem_exponentChars c hc

theorem toNat_of_isDigit {c : Char} (h : c.isDigit = true) : 48 ≤ c.toNat ∧ c.toNat ≤ 57 := by
  simp only [Char.isDigit, Bool.and_eq_true, decide_eq_true_eq, ge_iff_le, UInt32.le_iff_toNat_le]
    at h
  exact h

/-- The generous reader takes the characters of a number as they are. -/
theorem IsNumeralChar.plain {c : Char} (h : IsNumeralChar c) :
    asciiForm c = c ∧ isSurround c = false ∧ c ≠ '_' := by
  rcases h with hdigit | hother
  · obtain ⟨hlow, hhigh⟩ := toNat_of_isDigit hdigit
    have hascii : c.toNat < 0x80 := by omega
    have hne : ∀ other : Char, other.toNat < 48 ∨ 57 < other.toNat → c ≠ other := by
      rintro other hother rfl
      omega
    refine ⟨if_pos hascii, ?_, hne '_' (by decide)⟩
    simp only [isSurround, hne ' ' (by decide), decide_false, Bool.false_or]
    rw [Bool.and_eq_false_iff]
    right
    exact decide_eq_false (by omega)
  · simp only [List.mem_cons, List.not_mem_nil, or_false] at hother
    rcases hother with rfl | rfl | rfl | rfl <;> decide

theorem IsNumeralChar.isBlank {c : Char} (h : IsNumeralChar c) : Text.isBlank c = false := by
  rcases h with hdigit | hother
  · exact CharKind.isBlank_of_isDigit hdigit
  · simp only [List.mem_cons, List.not_mem_nil, or_false] at hother
    rcases hother with rfl | rfl | rfl | rfl <;> decide

theorem trimBy_eq_self {drops : Char → Bool} {cs : List Char} (h : ∀ c ∈ cs, drops c = false) :
    Text.trimBy drops cs = cs := by
  have hdrop : ∀ {cs : List Char}, (∀ c ∈ cs, drops c = false) → cs.dropWhile drops = cs := by
    intro cs h
    cases cs with
    | nil => rfl
    | cons c cs => rw [List.dropWhile_cons_of_neg (by simp [h c List.mem_cons_self])]
  rw [Text.trimBy, hdrop h, hdrop fun c hc => h c (List.mem_reverse.1 hc), List.reverse_reverse]

theorem joinDigits?_eq_some {cs : List Char} (h : ∀ c ∈ cs, c ≠ '_') (afterDigit : Bool) :
    joinDigits? afterDigit cs = some cs := by
  induction cs generalizing afterDigit with
  | nil => rfl
  | cons c cs ih =>
      have hc := h c List.mem_cons_self
      have hcs := ih (fun other hother => h other (List.mem_cons_of_mem _ hother))
      rw [joinDigits?, hcs, Option.map_some]
      · rintro rfl
        exact absurd rfl hc
      · rintro other rest rfl
        exact absurd rfl hc

theorem numeralChars_eq {cs : List Char} (h : ∀ c ∈ cs, IsNumeralChar c) :
    numeralChars (String.ofList cs) = cs := by
  have hmap : cs.map asciiForm = cs := by
    conv_rhs => rw [← List.map_id cs]
    exact List.map_congr_left fun c hc => (h c hc).plain.1
  rw [numeralChars, String.toList_ofList, hmap]
  exact trimBy_eq_self fun c hc => (h c hc).plain.2.1

theorem splitSign_chars (h : w.IsNumeral) (negative : Bool) :
    splitSign (Binary64.signChars negative ++ w.chars) = (negative, w.chars) := by
  obtain ⟨c, rest, hwhole, hdigit⟩ := h.exists_head
  have hchars : ∃ rest, w.chars = c :: rest := ⟨_, by rw [chars, hwhole]; rfl⟩
  obtain ⟨rest, hchars⟩ := hchars
  cases negative with
  | true => rfl
  | false =>
      rw [hchars]
      simp only [Binary64.signChars, Bool.false_eq_true, if_false, List.nil_append]
      unfold splitSign
      split
      · next heq =>
        rw [(List.cons.inj heq).1] at hdigit
        exact absurd hdigit (by decide)
      · next heq =>
        rw [(List.cons.inj heq).1] at hdigit
        exact absurd hdigit (by decide)
      · rfl

/-- A number is none of the names of values that are not finite. -/
theorem IsNumeral.toLower_ne (h : w.IsNumeral) (name : String)
    (hname : ∀ d, name.toList.head? = some d → 57 < d.toNat) :
    String.ofList (w.chars.map Char.toLower) ≠ name := by
  rintro rfl
  obtain ⟨c, rest, hwhole, hdigit⟩ := h.exists_head
  obtain ⟨hlow, hhigh⟩ := toNat_of_isDigit hdigit
  have hlower : c.toLower = c := by
    refine dif_neg fun hupper => ?_
    have : 65 ≤ c.toNat := hupper.1
    omega
  have hhead : (w.chars.map Char.toLower).head? = some c := by
    rw [chars, hwhole, List.cons_append, List.map_cons, hlower, List.head?_cons]
  have := hname c (by rw [String.toList_ofList, hhead])
  omega

theorem readUnsigned?_chars (h : w.IsNumeral) (negative : Bool) :
    readUnsigned? negative w.chars = some (w.decimal.toBinary64 negative) := by
  have hnan := h.toLower_ne "nan" (by rintro d ⟨⟩; decide)
  have hinf := h.toLower_ne "inf" (by rintro d ⟨⟩; decide)
  have hinfinity := h.toLower_ne "infinity" (by rintro d ⟨⟩; decide)
  have htake : w.chars.takeWhile Char.isDigit = w.whole := by
    simpa using h.takeWhile_chars endsNumeral_nil
  have hdrop :
      w.chars.dropWhile Char.isDigit = pointChars w.fraction ++ powerChars w.exponent? := by
    simpa using h.dropWhile_chars endsNumeral_nil
  have hexponent : readExponent (powerChars w.exponent?) = (w.exponent?, []) := by
    simpa using readExponent_powerChars w.exponent? endsNumeral_nil
  have hpower : ∀ c, (powerChars w.exponent?).head? = some c → c.isDigit = false ∧ c ≠ '.' := by
    simpa using head?_powerChars w.exponent? endsNumeral_nil
  simp only [readUnsigned?]
  rw [if_neg hnan, if_neg (not_or.2 ⟨hinf, hinfinity⟩), htake, hdrop]
  have hempty : (w.whole ++ w.fraction).isEmpty = false := by
    simpa using fun hempty => absurd hempty h.whole_ne_nil
  cases hfraction : w.fraction with
  | nil =>
      rw [hfraction] at hempty
      simp only [pointChars, List.isEmpty_nil, if_true, List.nil_append]
      generalize powerChars w.exponent? = power at *
      have hafter : ∀ rest, power ≠ '.' :: rest := by
        rintro rest rfl
        exact (hpower '.' rfl).2 rfl
      split
      · next rest => exact absurd rfl (hafter rest)
      · simp only [Nat.lt_irrefl, Bool.false_eq_true, if_false, List.length_nil, List.drop_zero,
          hexponent, hempty, List.isEmpty_nil, Bool.not_true, Bool.or_false, decimal, hfraction]
  | cons digit fraction =>
      have htakeFraction : (digit :: fraction ++ powerChars w.exponent?).takeWhile Char.isDigit =
          digit :: fraction :=
        Literal.takeWhile_digits (hfraction ▸ h.isDigit_fraction) fun c hc => (hpower c hc).1
      have hlonger : ((digit :: fraction) ++ powerChars w.exponent?).length <
          ('.' :: ((digit :: fraction) ++ powerChars w.exponent?)).length := Nat.lt_succ_self _
      rw [hfraction] at hempty
      simp only [pointChars, List.isEmpty_cons, Bool.false_eq_true, if_false, List.cons_append] at *
      simp only [hlonger, if_true, htakeFraction]
      rw [← List.cons_append, List.drop_left, hexponent]
      simp only [hempty, List.isEmpty_nil, Bool.not_true, Bool.or_false, Bool.false_eq_true,
        if_false, decimal, hfraction]

/-- A written number is read as the binary64 number nearest to its decimal. -/
theorem readBinary64?_chars (h : w.IsNumeral) (negative : Bool) :
    readBinary64? (String.ofList (Binary64.signChars negative ++ w.chars)) =
      some (w.decimal.toBinary64 negative) := by
  have hchars : ∀ c ∈ Binary64.signChars negative ++ w.chars, IsNumeralChar c := by
    intro c hc
    rcases List.mem_append.1 hc with hc | hc
    · cases negative with
      | true =>
          obtain rfl := List.mem_singleton.1 hc
          exact Or.inr (by decide)
      | false => cases hc
    · exact h.isNumeralChar c hc
  rw [readBinary64?, numeralChars_eq hchars,
    joinDigits?_eq_some fun c hc => (hchars c hc).plain.2.2]
  show readUnsigned? (splitSign (Binary64.signChars negative ++ w.chars)).1
    (splitSign (Binary64.signChars negative ++ w.chars)).2 = _
  rw [splitSign_chars h, readUnsigned?_chars h]

end Generous

/-! ## Literals -/

section Literals

variable {w : Written}

theorem IsNumeral.inLanguage (h : w.IsNumeral) :
    Literal.InLanguage (w.whole ++ pointChars w.fraction) := by
  rw [Literal.inLanguage_iff]
  cases hfraction : w.fraction with
  | nil =>
      refine Or.inl ⟨by simp [pointChars, h.whole_ne_nil], ?_⟩
      simpa [pointChars] using h.isDigit_whole
  | cons digit fraction =>
      exact Or.inr ⟨w.whole, digit :: fraction, rfl, h.isDigit_whole, by simp,
        hfraction ▸ h.isDigit_fraction⟩

/-- A written number is a literal if it has no exponent. -/
theorem isLiteral_chars (h : w.IsNumeral) : Literal.isLiteral w.chars = w.exponent?.isNone := by
  have hends : Literal.EndsLiteral (powerChars w.exponent?) := by
    simpa [Literal.EndsLiteral] using head?_powerChars w.exponent? endsNumeral_nil
  rw [Literal.isLiteral, chars, ← List.append_assoc, Literal.split?_append h.inLanguage hends]
  cases w.exponent? <;> rfl

/-- Without an exponent it is a literal of the same decimal. -/
theorem decimal_chars (h : w.IsNumeral) (hexponent : w.exponent? = none) :
    Literal.decimal w.chars = w.decimal := by
  have htake : w.chars.takeWhile Char.isDigit = w.whole := by
    simpa using h.takeWhile_chars endsNumeral_nil
  have hdrop : w.chars.dropWhile Char.isDigit = pointChars w.fraction := by
    simpa [hexponent, powerChars] using h.dropWhile_chars endsNumeral_nil
  have hfraction : (pointChars w.fraction).drop 1 = w.fraction := by
    cases w.fraction <;> rfl
  simp only [Literal.decimal, htake, hdrop, hfraction, decimal, hexponent, Option.getD_none,
    Int.zero_sub]

end Literals

/-! ## Equal texts -/

section Parts

variable {v w : Written}

/-- The digits behind the point and the exponent can be told from what follows the digits before
the point. -/
theorem eq_of_pointChars {f g : List Char} {d e : Option Int}
    (hf : ∀ c ∈ f, c.isDigit = true) (hg : ∀ c ∈ g, c.isDigit = true)
    (h : pointChars f ++ powerChars d = pointChars g ++ powerChars e) : f = g ∧ d = e := by
  have hhead : ∀ d c, (powerChars d).head? = some c → c.isDigit = false ∧ c ≠ '.' := by
    intro d
    simpa using head?_powerChars d endsNumeral_nil
  have hpower : powerChars d = powerChars e → d = e := by
    intro heq
    have hd := readExponent_powerChars d endsNumeral_nil
    rw [heq, readExponent_powerChars e endsNumeral_nil] at hd
    exact (Prod.mk.inj hd).1.symm
  cases f with
  | nil =>
      cases g with
      | nil => exact ⟨rfl, hpower h⟩
      | cons digit g => exact absurd rfl (hhead d '.' (congrArg List.head? h)).2
  | cons digit f =>
      cases g with
      | nil => exact absurd rfl (hhead e '.' (congrArg List.head? h.symm)).2
      | cons other g =>
          have hrest : digit :: f ++ powerChars d = other :: g ++ powerChars e :=
            (List.cons.inj h).2
          have htake := Literal.takeWhile_digits hf fun c hc => (hhead d c hc).1
          rw [hrest, Literal.takeWhile_digits hg fun c hc => (hhead e c hc).1] at htake
          rw [htake] at hrest ⊢
          exact ⟨rfl, hpower (List.append_cancel_left hrest)⟩

/-- The parts of a written number can be told from its characters. -/
theorem IsNumeral.eq_of_chars (hv : v.IsNumeral) (hw : w.IsNumeral) (h : v.chars = w.chars) :
    v = w := by
  have htake := hv.takeWhile_chars endsNumeral_nil
  have hdrop := hv.dropWhile_chars endsNumeral_nil
  rw [h, hw.takeWhile_chars endsNumeral_nil] at htake
  rw [h, hw.dropWhile_chars endsNumeral_nil, List.append_nil, List.append_nil] at hdrop
  obtain ⟨hfraction, hexponent⟩ :=
    eq_of_pointChars hw.isDigit_fraction hv.isDigit_fraction hdrop
  cases v
  cases w
  simp only at htake hfraction hexponent
  rw [htake, hfraction, hexponent]

end Parts

end Written

end Reckoner
