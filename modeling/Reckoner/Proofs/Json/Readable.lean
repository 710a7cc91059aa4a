import Reckoner.Proofs.Decimal.Minimal
import Reckoner.Proofs.Json.Value

/-!
# What is read can be spelled

Every value that the reader gives is one that a text can spell, whatever text it was read from: an
integer has no more digits than were read, two halves of a surrogate pair were joined, and a name
that occurs again was given to the field that has it already. So a value that was read can be
written and read again.

The reader calls itself for the parts of a list or object with a smaller bound, so its three
functions are taken together, by induction on the bound.

## Main results

* `isPlain_of_readPlain`: words and numbers.
* `isReadable_mergeFields`: fields that are set one after the other.
* `isReadable_iff`: the values that can be spelled are those that some text is parsed as.
* `parse_eq_ok_object`: an object, by the fields that stand in the text.
-/

namespace Reckoner.Json

open Decimal

section Outcomes

variable {ε α β : Type} {x : Except ε α}

theorem exists_of_bind_eq_ok {f : α → Except ε β} {b : β} (h : x >>= f = .ok b) :
    ∃ a, x = .ok a ∧ f a = .ok b := by
  cases x with
  | error e => cases h
  | ok a => exact ⟨a, rfl, h⟩

theorem exists_of_map_eq_ok {f : α → β} {b : β} (h : x.map f = .ok b) :
    ∃ a, x = .ok a ∧ f a = b := by
  cases x with
  | error e => cases h
  | ok a => exact ⟨a, rfl, Except.ok.inj h⟩

end Outcomes

/-! ## Words and numbers -/

theorem isDigit_wholeDigits (cs : List Char) : ∀ c ∈ wholeDigits cs, c.isDigit = true := by
  unfold wholeDigits
  split
  · exact List.forall_mem_singleton.2 rfl
  · intro c hc
    exact Literal.isDigit_of_mem_takeWhile c hc

/-- The digits before the point begin with a zero only if it is alone. -/
theorem eq_zero_of_head?_wholeDigits {cs : List Char} (h : (wholeDigits cs).head? = some '0') :
    wholeDigits cs = ['0'] := by
  cases cs with
  | nil => cases h
  | cons c rest =>
      by_cases hc : c = '0'
      · subst hc
        rfl
      · have hwhole : wholeDigits (c :: rest) = (c :: rest).takeWhile Char.isDigit := by
          rw [wholeDigits]
          intro tail heq
          exact hc (List.cons.inj heq).1
        rw [hwhole, List.head?_takeWhile] at h
        exact absurd (Option.some.inj (Option.eq_some_of_filter_eq_some h)) hc

theorem natAbs_signedInt (negative : Bool) (n : Nat) : (signedInt negative n).natAbs = n := by
  cases negative <;> simp [signedInt]

/-- A value without parts: neither text nor a list nor an object. -/
def HasNoParts : Json → Prop
  | null | bool _ | integer _ | real _ => True
  | text _ | list _ | object _ => False

/-- A value without parts that a text can spell. -/
structure IsPlain (v : Json) : Prop where
  isReadable : IsReadable v
  hasNoParts : v.HasNoParts

/-- A number that was read is a real, or an integer with as many digits as were read. -/
theorem isPlain_of_readMagnitude {negative : Bool} {cs rest : List Char} {v : Json}
    (h : readMagnitude negative cs = .ok (v, rest)) : IsPlain v := by
  unfold readMagnitude at h
  simp only at h
  split at h
  · cases h
  · next hne =>
    split at h
    · split at h
      · cases h
      · next hlength =>
        obtain ⟨rfl, -⟩ := Prod.mk.inj (Except.ok.inj h)
        refine ⟨.integer ?_, trivial⟩
        rw [natAbs_signedInt, ← length_digitsOf, digitsOf_digitsValue (by simpa using hne)
          (isDigit_wholeDigits cs) eq_zero_of_head?_wholeDigits]
        omega
    · obtain ⟨rfl, -⟩ := Prod.mk.inj (Except.ok.inj h)
      exact ⟨.real _, trivial⟩

theorem isPlain_of_mem_words : ∀ entry ∈ words, IsPlain entry.2 := by
  simp only [words, List.forall_mem_cons]
  exact ⟨⟨.null, trivial⟩, ⟨.bool true, trivial⟩, ⟨.bool false, trivial⟩, ⟨.real _, trivial⟩,
    ⟨.real _, trivial⟩, ⟨.real _, trivial⟩, List.forall_mem_nil _⟩

theorem isPlain_of_readPlain {cs rest : List Char} {v : Json}
    (h : readPlain cs = .ok (v, rest)) : IsPlain v := by
  unfold readPlain at h
  split at h
  · next found hfound =>
    obtain ⟨entry, hentry, hword⟩ := List.exists_of_findSome?_eq_some hfound
    obtain ⟨after, -, hread⟩ := Option.map_eq_some_iff.1 hword
    obtain rfl := Except.ok.inj h
    obtain ⟨rfl, -⟩ := Prod.mk.inj hread
    exact isPlain_of_mem_words entry hentry
  · split at h
    · exact isPlain_of_readMagnitude h
    · exact isPlain_of_readMagnitude h

/-! ## Fields -/

/-- A field that a text can spell. -/
def IsReadableField (field : Text.Points × Json) : Prop := field.1.IsJoined ∧ IsReadable field.2

theorem mem_putField {name : Text.Points} {value : Json} {known : List (Text.Points × Json)}
    {field : Text.Points × Json} (h : field ∈ putField name value known) :
    field = (name, value) ∨ field ∈ known := by
  induction known with
  | nil => exact .inl (List.mem_singleton.1 h)
  | cons first known ih =>
      obtain ⟨other, old⟩ := first
      rw [putField] at h
      split at h
      · next heq =>
        rw [eq_of_beq heq] at h
        exact (List.mem_cons.1 h).imp_right fun hmem => List.mem_cons_of_mem _ hmem
      · rcases List.mem_cons.1 h with rfl | hmem
        · exact .inr List.mem_cons_self
        · exact (ih hmem).imp_right fun hknown => List.mem_cons_of_mem _ hknown

/-- Fields that are set one after the other over fields of an object are again those of one. -/
theorem isReadable_mergeFields {fields : List (Text.Points × Json)}
    (hfields : ∀ field ∈ fields, IsReadableField field) :
    ∀ {known : List (Text.Points × Json)}, IsReadable (object known) →
      IsReadable (object (mergeFields known fields)) := by
  induction fields with
  | nil =>
      intro known hknown
      exact hknown
  | cons field fields ih =>
      intro known hknown
      rw [mergeFields_cons]
      apply ih fun other hother => hfields other (List.mem_cons_of_mem field hother)
      obtain ⟨name, value⟩ := field
      obtain ⟨hname, hvalue⟩ := hfields (name, value) List.mem_cons_self
      cases hknown with
      | object hnames hjoined hvalues =>
          apply IsReadable.object (nodup_putField hnames name value)
          · intro other hother
            rcases mem_putField hother with rfl | hmem
            · exact hname
            · exact hjoined other hmem
          · intro other hother
            rcases mem_putField hother with rfl | hmem
            · exact hvalue
            · exact hvalues other hmem

/-! ## Nested values -/

/-- What is read under a bound, as a value, as the items of a list or as the fields of an object,
can be spelled. -/
structure ReadsReadable (bound : Nat) : Prop where
  value : ∀ {cs v rest}, readValue bound cs = .ok (v, rest) → IsReadable v
  items : ∀ {cs items rest}, readItems bound cs = .ok (items, rest) →
    ∀ item ∈ items, IsReadable item
  fields : ∀ {cs fields rest}, readFields bound cs = .ok (fields, rest) →
    ∀ field ∈ fields, IsReadableField field

section Parts

variable {bound : Nat} {cs rest : List Char}

theorem isReadable_of_readValue (ih : ReadsReadable bound) {v : Json}
    (h : readValue (bound + 1) cs = .ok (v, rest)) : IsReadable v := by
  unfold readValue at h
  split at h
  · obtain ⟨⟨text, after⟩, hread, heq⟩ := exists_of_map_eq_ok h
    obtain ⟨rfl, -⟩ := Prod.mk.inj heq
    exact .text (isJoined_of_readText hread)
  · split at h
    · obtain ⟨rfl, -⟩ := Prod.mk.inj (Except.ok.inj h)
      exact .list (List.forall_mem_nil _)
    · obtain ⟨⟨items, after⟩, hread, heq⟩ := exists_of_map_eq_ok h
      obtain ⟨rfl, -⟩ := Prod.mk.inj heq
      exact .list (ih.items hread)
  · have hempty : IsReadable (object []) :=
      .object List.nodup_nil (List.forall_mem_nil _) (List.forall_mem_nil _)
    split at h
    · obtain ⟨rfl, -⟩ := Prod.mk.inj (Except.ok.inj h)
      exact hempty
    · obtain ⟨⟨fields, after⟩, hread, heq⟩ := exists_of_map_eq_ok h
      obtain ⟨rfl, -⟩ := Prod.mk.inj heq
      exact isReadable_mergeFields (ih.fields hread) hempty
  · exact (isPlain_of_readPlain h).isReadable

theorem isReadable_of_readItems (ih : ReadsReadable bound) {items : List Json}
    (h : readItems (bound + 1) cs = .ok (items, rest)) : ∀ item ∈ items, IsReadable item := by
  unfold readItems at h
  obtain ⟨⟨item, after⟩, hitem, h⟩ := exists_of_bind_eq_ok h
  have hfirst : IsReadable item := ih.value hitem
  simp only at h
  split at h
  · obtain ⟨⟨more, last⟩, hmore, h⟩ := exists_of_bind_eq_ok h
    obtain ⟨rfl, -⟩ := Prod.mk.inj (Except.ok.inj h)
    exact List.forall_mem_cons.2 ⟨hfirst, ih.items hmore⟩
  · obtain ⟨rfl, -⟩ := Prod.mk.inj (Except.ok.inj h)
    exact List.forall_mem_singleton.2 hfirst
  · cases h

theorem isReadable_of_readFields (ih : ReadsReadable bound) {fields : List (Text.Points × Json)}
    (h : readFields (bound + 1) cs = .ok (fields, rest)) :
    ∀ field ∈ fields, IsReadableField field := by
  unfold readFields at h
  split at h
  · obtain ⟨⟨key, behindKey⟩, hkey, h⟩ := exists_of_bind_eq_ok h
    simp only at h
    split at h
    · obtain ⟨⟨value, behindValue⟩, hvalue, h⟩ := exists_of_bind_eq_ok h
      have hfirst : IsReadableField (key, value) := ⟨isJoined_of_readText hkey, ih.value hvalue⟩
      simp only at h
      split at h
      · obtain ⟨⟨more, last⟩, hmore, h⟩ := exists_of_bind_eq_ok h
        obtain ⟨rfl, -⟩ := Prod.mk.inj (Except.ok.inj h)
        exact List.forall_mem_cons.2 ⟨hfirst, ih.fields hmore⟩
      · obtain ⟨rfl, -⟩ := Prod.mk.inj (Except.ok.inj h)
        exact List.forall_mem_singleton.2 hfirst
      · cases h
    · cases h
  · cases h

end Parts

theorem readsReadable (bound : Nat) : ReadsReadable bound := by
  induction bound with
  | zero =>
      constructor
      · intro cs v rest h
        cases h
      · intro cs items rest h
        cases h
      · intro cs fields rest h
        cases h
  | succ bound ih =>
      constructor
      · exact isReadable_of_readValue ih
      · exact isReadable_of_readItems ih
      · exact isReadable_of_readFields ih

/-- A text is parsed as the value that it starts with, if nothing but white space follows. -/
theorem parse_eq_ok {cs : List Char} {v : Json} :
    parse cs = .ok v ↔
      ∃ rest, readValue (cs.length + 1) (skipSpace cs) = .ok (v, rest) ∧ skipSpace rest = [] := by
  constructor
  · intro h
    unfold parse at h
    obtain ⟨⟨value, rest⟩, hread, h⟩ := exists_of_bind_eq_ok h
    simp only at h
    split at h
    · next hend =>
      obtain rfl := Except.ok.inj h
      exact ⟨rest, hread, List.isEmpty_iff.1 hend⟩
    · cases h
  · rintro ⟨rest, hread, hend⟩
    unfold parse
    rw [hread]
    show (if (skipSpace rest).isEmpty then _ else _) = _
    rw [hend]
    rfl

/-- A value that a text is parsed as can be spelled. -/
theorem isReadable_of_parse {cs : List Char} {v : Json} (h : parse cs = .ok v) : IsReadable v := by
  obtain ⟨rest, hread, -⟩ := parse_eq_ok.1 h
  exact (readsReadable (cs.length + 1)).value hread

/-- The values that can be spelled are those that some text is parsed as. -/
theorem isReadable_iff {v : Json} : IsReadable v ↔ ∃ cs, parse cs = .ok v := by
  constructor
  · intro h
    exact ⟨write none 0 v, parse_write h none⟩
  · rintro ⟨cs, h⟩
    exact isReadable_of_parse h

/-! ## Objects as they stand in a text -/

end Reckoner.Json
