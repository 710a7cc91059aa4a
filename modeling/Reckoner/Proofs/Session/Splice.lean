import Reckoner.Proofs.Grammar.Alike
import Reckoner.Proofs.Grammar.Reading

/-!
# A number in front of a text

Which number stands at the start of a text makes no difference to how the rest is read: the rest is
cut, signed and joined in the same way, and refused for the same reason. Only the data that a fault
shows may differ, a position or the number itself.

## Main results

* `readBehind_alike`: what is read behind a number does not depend on the number.
* `ReadsNumber.alike`: two texts that begin with a number and go on alike are read alike.
-/

namespace Reckoner

namespace Token

/-! ## Signs and products behind a number -/

/-- What was read before matters to signs only through whether an operand may follow. -/
theorem foldSigns_congr {previous other : Option Token}
    (h : opensOperand previous = opensOperand other) (tokens : List Token) :
    foldSigns previous tokens = foldSigns other tokens := by
  fun_cases foldSigns previous tokens with
  | case1 => rfl
  | case2 text value rest hsign =>
      rw [foldSigns, if_pos (h ▸ hsign)]
  | case3 text value rest hsign =>
      rw [foldSigns, if_neg (h ▸ hsign)]
  | case4 token rest hother => rw [foldSigns.eq_3 _ _ _ hother]

theorem gap_number (writesProducts : Bool) (v w : Binary64) (next : Option Token) :
    gap writesProducts (some (number v)) next = gap writesProducts (some (number w)) next := by
  cases next with
  | none => rfl
  | some right => simp [gap, multiplies, isNumber, closing]

/-! ## Checking behind a number -/

/-- Which number was read makes no difference to the next token. -/
theorem read_alike (v w : Binary64) (token : Token) :
    Alike Eq (Sentence.read ⟨0, some (number v)⟩ token)
      (Sentence.read ⟨0, some (number w)⟩ token) := by
  cases token with
  | number value => exact .error rfl rfl
  | symbol text =>
      simp only [Sentence.read]
      split
      · exact .error rfl rfl
      · split
        · exact .error rfl rfl
        · exact .ok rfl

theorem check_alike (v w : Binary64) (tokens : List Token) :
    Alike Eq (Sentence.check (number v :: tokens)) (Sentence.check (number w :: tokens)) := by
  have hcheck : ∀ value, Sentence.check (number value :: tokens) =
      (tokens.foldlM Sentence.read ⟨0, some (number value)⟩ >>= Sentence.finish) := fun _ => rfl
  rw [hcheck, hcheck]
  cases tokens with
  | nil => exact .ok rfl
  | cons token tokens =>
      rw [List.foldlM_cons, List.foldlM_cons, bind_assoc, bind_assoc]
      refine (read_alike v w token).bind ?_
      rintro next _ rfl
      exact Alike.refl _

/-! ## Reading -/

/-- What reading makes of cut tokens behind a number. -/
def readBehind (writesProducts : Bool) (value : Binary64) (unsigned : List Token) :
    Except Fault (List Token) := do
  let tokens :=
    writeProducts writesProducts (number value :: foldSigns (some (number value)) unsigned)
  Sentence.check tokens
  return tokens

/-- The text is read as this number, whatever follows it that does not go on with a literal. -/
def ReadsNumber (text : List Char) (value : Binary64) : Prop :=
  ∀ (writesProducts : Bool) (rest : List Char), Literal.EndsLiteral rest →
    ∃ position, read writesProducts (text ++ rest) =
      (cut position rest >>= readBehind writesProducts value)

theorem readBehind_alike (writesProducts : Bool) (v w : Binary64) (unsigned : List Token) :
    Alike (fun s t => ∃ tail, s = number v :: tail ∧ t = number w :: tail)
      (readBehind writesProducts v unsigned) (readBehind writesProducts w unsigned) := by
  have hopens : opensOperand (some (number w)) = opensOperand (some (number v)) := rfl
  simp only [readBehind]
  rw [foldSigns_congr hopens, writeProducts_cons, writeProducts_cons, gap_number writesProducts w v]
  refine (check_alike v w _).bind ?_
  intro _ _ _
  exact .ok ⟨_, rfl, rfl⟩

/-- Two texts that begin with a number and go on alike are read alike, each with its own number. -/
theorem ReadsNumber.alike {front other : List Char} {v w : Binary64} (hfront : ReadsNumber front v)
    (hother : ReadsNumber other w) (writesProducts : Bool) {rest : List Char}
    (hrest : Literal.EndsLiteral rest) :
    Alike (fun s t => ∃ tail, s = number v :: tail ∧ t = number w :: tail)
      (read writesProducts (front ++ rest)) (read writesProducts (other ++ rest)) := by
  obtain ⟨p, hp⟩ := hfront writesProducts rest hrest
  obtain ⟨q, hq⟩ := hother writesProducts rest hrest
  rw [hp, hq]
  refine (cut_alike rest p q).bind ?_
  rintro unsigned _ rfl
  exact readBehind_alike writesProducts v w unsigned

/-- With nothing behind it the number is all there is to read. -/
theorem ReadsNumber.read_eq {text : List Char} {value : Binary64} (h : ReadsNumber text value)
    (writesProducts : Bool) : read writesProducts text = .ok [.number value] := by
  obtain ⟨position, hread⟩ := h writesProducts [] fun c hc => by cases hc
  rw [List.append_nil, cut] at hread
  rw [hread]
  cases writesProducts <;> rfl

/-- A numeral is read as one number, its sign included. -/
theorem readsNumber_spelling (sign : Option Sign) (numeral : Numeral) :
    ReadsNumber (Sign.spelling sign ++ numeral.digits) (SignedNumeral.value ⟨sign, numeral⟩) := by
  intro writesProducts rest hrest
  cases sign with
  | none =>
      refine ⟨0 + numeral.digits.length, ?_⟩
      rw [read, show Sign.spelling none = [] from rfl, List.nil_append, cut_numeral numeral hrest]
      cases cut (0 + numeral.digits.length) rest with
      | error fault => rfl
      | ok unsigned => rfl
  | some sign =>
      refine ⟨0 + 1 + numeral.digits.length, ?_⟩
      rw [read, show Sign.spelling (some sign) = [sign.operator.char] from rfl,
        List.singleton_append, List.cons_append, cut_operator, cut_numeral numeral hrest]
      cases cut (0 + 1 + numeral.digits.length) rest with
      | error fault => rfl
      | ok unsigned => cases sign <;> rfl

theorem readsNumber_numeral (numeral : Numeral) : ReadsNumber numeral.digits numeral.value :=
  readsNumber_spelling none numeral

end Token

end Reckoner
