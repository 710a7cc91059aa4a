import Reckoner.Proofs.Json.Fields
import Reckoner.Proofs.Json.Number
import Reckoner.Proofs.Json.Text

/-!
# Written values are read back

Whatever the indentation, the text of a value is read back as the value: the reader skips the line
starts that the writer puts between the parts, and the first character of every part tells what it
is and that the list or object has not ended. What may follow the text stays open, up to the one
condition that it does not carry on a number, so that the parts of a list or object can be read one
after the other.

## Main results

* `IsReadable.readsBack`: a value without halves that make up a surrogate pair, repeated names or
  integers that are too long is read back in any surroundings.
* `parse_write`: as a whole text, it is parsed.
-/

namespace Reckoner

namespace Json

open Decimal
open Written (EndsNumeral endsNumeral_nil)

/-- What a file can hold and give back: text without halves of surrogate pairs, integers that are
not too long to be read, and objects in which no name occurs twice. -/
inductive IsStorable : Json → Prop where
  | null : IsStorable null
  | bool (value : Bool) : IsStorable (bool value)
  | integer {value : Int} (h : decimalLength value.natAbs ≤ maxIntegerDigits) :
      IsStorable (integer value)
  | real (value : Binary64) : IsStorable (real value)
  | text (s : String) : IsStorable (text (.ofString s))
  | list {items : List Json} (h : ∀ item ∈ items, IsStorable item) : IsStorable (list items)
  | object {fields : List (Text.Points × Json)} (hnames : (names fields).Nodup)
      (htext : ∀ field ∈ fields, ∃ s, field.1 = .ofString s)
      (h : ∀ field ∈ fields, IsStorable field.2) : IsStorable (object fields)

/-- What a text can spell: halves of surrogate pairs may stand in it as long as no two of them make
up a pair, integers are not too long to be read, and no name occurs twice in an object. -/
inductive IsReadable : Json → Prop where
  | null : IsReadable null
  | bool (value : Bool) : IsReadable (bool value)
  | integer {value : Int} (h : decimalLength value.natAbs ≤ maxIntegerDigits) :
      IsReadable (integer value)
  | real (value : Binary64) : IsReadable (real value)
  | text {value : Text.Points} (h : value.IsJoined) : IsReadable (text value)
  | list {items : List Json} (h : ∀ item ∈ items, IsReadable item) : IsReadable (list items)
  | object {fields : List (Text.Points × Json)} (hnames : (names fields).Nodup)
      (hjoined : ∀ field ∈ fields, field.1.IsJoined)
      (h : ∀ field ∈ fields, IsReadable field.2) : IsReadable (object fields)

/-- What a file can hold and give back is what a text can spell without any halves. -/
theorem IsStorable.isReadable {v : Json} (h : IsStorable v) : IsReadable v := by
  induction h with
  | null => exact .null
  | bool value => exact .bool value
  | integer h => exact .integer h
  | real value => exact .real value
  | text s => exact .text (Text.Points.isJoined_ofString s)
  | list _ ih => exact .list ih
  | object hnames htext _ ih =>
      refine .object hnames (fun field hfield => ?_) ih
      obtain ⟨s, hs⟩ := htext field hfield
      rw [hs]
      exact Text.Points.isJoined_ofString s

theorem IsStorable.nodup_names {fields : List (Text.Points × Json)}
    (h : (Json.object fields).IsStorable) : (names fields).Nodup := by
  cases h with
  | object hnames _ _ => exact hnames

/-! ## White space -/

/-- A character that a written value can start with. -/
def opensValue (c : Char) : Bool :=
  c.isAlphanum || c == '-' || c == '"' || c == '[' || c == '\x7b'

/-- Text that starts like a written value. -/
def StartsValue (cs : List Char) : Prop := ∃ c tail, cs = c :: tail ∧ opensValue c = true

theorem ne_of_opensValue {c d : Char} (h : opensValue c = true) (hd : opensValue d = false) :
    c ≠ d := by
  rintro rfl
  rw [h] at hd
  cases hd

theorem StartsValue.append {cs : List Char} (h : StartsValue cs) (rest : List Char) :
    StartsValue (cs ++ rest) := by
  obtain ⟨c, tail, rfl, hc⟩ := h
  exact ⟨c, tail ++ rest, rfl, hc⟩

theorem StartsValue.skipSpace {cs : List Char} (h : StartsValue cs) : skipSpace cs = cs := by
  obtain ⟨c, tail, rfl, hc⟩ := h
  have hspace := ne_of_opensValue hc (d := ' ') (by decide)
  have htab := ne_of_opensValue hc (d := '\t') (by decide)
  have hline := ne_of_opensValue hc (d := '\n') (by decide)
  have hreturn := ne_of_opensValue hc (d := '\r') (by decide)
  exact List.dropWhile_cons_of_neg (by simp [hspace, htab, hline, hreturn])

/-- The start of a line is skipped. -/
theorem skipSpace_newLine (indent : Option Nat) (depth : Nat) (cs : List Char) :
    skipSpace (newLine indent depth ++ cs) = skipSpace cs := by
  cases indent with
  | none => rfl
  | some width =>
      refine List.dropWhile_append_of_pos fun c hc => ?_
      rcases List.mem_cons.1 hc with rfl | hblank
      · rfl
      · rw [(List.mem_replicate.1 hblank).2]
        rfl

theorem endsNumeral_cons {c : Char} (h : c.isDigit = false ∧ c ≠ '.' ∧ c ≠ 'e' ∧ c ≠ 'E')
    (cs : List Char) : EndsNumeral (c :: cs) := by
  rintro d ⟨⟩
  exact h

theorem endsNumeral_newLine {cs : List Char} (h : EndsNumeral cs) (indent : Option Nat)
    (depth : Nat) : EndsNumeral (newLine indent depth ++ cs) := by
  cases indent with
  | none => exact h
  | some width => exact endsNumeral_cons (by decide) _

/-! ## Parts between brackets -/

section Parts

variable {parts : List (List Char)} (hne : parts ≠ [])

include hne

/-- The first of several parts comes first. -/
theorem startsValue_intercalate (hparts : ∀ part ∈ parts, StartsValue part)
    (separator : List Char) : StartsValue (List.intercalate separator parts) := by
  obtain ⟨part, parts, rfl⟩ := List.exists_cons_of_ne_nil hne
  have hpart := hparts part List.mem_cons_self
  cases parts with
  | nil => rwa [List.intercalate_singleton]
  | cons next parts =>
      rw [List.intercalate_cons_cons, List.append_assoc]
      exact hpart.append _

theorem enclose_append (indent : Option Nat) (depth : Nat) (opening closing : Char)
    (rest : List Char) :
    enclose indent depth opening closing parts ++ rest =
      opening :: (newLine indent (depth + 1)
        ++ (List.intercalate (',' :: newLine indent (depth + 1)) parts
          ++ (newLine indent depth ++ closing :: rest))) := by
  rw [enclose, if_neg (by simpa using hne)]
  simp only [List.cons_append, List.append_assoc, List.nil_append]

theorem length_enclose (indent : Option Nat) (depth : Nat) (opening closing : Char) :
    (List.intercalate (',' :: newLine indent (depth + 1)) parts).length + 2 ≤
      (enclose indent depth opening closing parts).length := by
  rw [enclose, if_neg (by simpa using hne)]
  simp only [List.length_cons, List.length_append, List.length_nil]
  omega

end Parts

/-! ## Steps of the reader -/

section Steps

variable {cs : List Char}

/-- A list that goes on is read as its items. -/
theorem readValue_list (h : StartsValue cs) (indent : Option Nat) (depth bound : Nat) :
    readValue (bound + 1) ('[' :: (newLine indent depth ++ cs)) =
      (readItems bound cs).map fun (items, rest) => (list items, rest) := by
  rw [readValue, skipSpace_newLine, h.skipSpace]
  obtain ⟨c, tail, rfl, hc⟩ := h
  split
  · next heq => exact absurd (List.cons.inj heq).1 (ne_of_opensValue hc (by decide))
  · rfl

/-- An object that goes on is read as its fields, set one after the other. -/
theorem readValue_object (h : StartsValue cs) (indent : Option Nat) (depth bound : Nat) :
    readValue (bound + 1) ('\x7b' :: (newLine indent depth ++ cs)) =
      (readFields bound cs).map fun (fields, rest) =>
        (object (mergeFields [] fields), rest) := by
  rw [readValue, skipSpace_newLine, h.skipSpace]
  obtain ⟨c, tail, rfl, hc⟩ := h
  split
  · next heq => exact absurd (List.cons.inj heq).1 (ne_of_opensValue hc (by decide))
  · rfl

/-- A value whose text starts with no quote and no bracket is read as a word or a number. -/
theorem readValue_plain {c : Char} (h : c.isAlphanum = true ∨ c = '-') (bound : Nat)
    (cs : List Char) : readValue (bound + 1) (c :: cs) = readPlain (c :: cs) := by
  have hne : ∀ d : Char, d.isAlphanum = false → d ≠ '-' → c ≠ d := by
    rintro d hd hminus rfl
    rcases h with halnum | rfl
    · rw [halnum] at hd
      cases hd
    · exact hminus rfl
  rw [readValue]
  · intro rest heq
    exact hne '"' (by decide) (by decide) (List.cons.inj heq).1
  · intro rest heq
    exact hne '[' (by decide) (by decide) (List.cons.inj heq).1
  · intro rest heq
    exact hne '\x7b' (by decide) (by decide) (List.cons.inj heq).1

end Steps

/-! ## Reading what was written -/

/-- The text of a value is read back, whatever the indentation and the bound that is large enough,
and it starts like a value. -/
structure ReadsBack (v : Json) : Prop where
  starts : ∀ indent depth, StartsValue (write indent depth v)
  read : ∀ indent depth {bound} {rest}, EndsNumeral rest →
    (write indent depth v).length ≤ bound →
    readValue (bound + 1) (write indent depth v ++ rest) = .ok (v, rest)

theorem readsBack_plain {v : Json} {cs : List Char}
    (hwrite : ∀ indent depth, write indent depth v = cs)
    (hhead : ∃ c tail, cs = c :: tail ∧ (c.isAlphanum = true ∨ c = '-'))
    (hread : ∀ rest, EndsNumeral rest → readPlain (cs ++ rest) = .ok (v, rest)) :
    ReadsBack v := by
  obtain ⟨c, tail, hcs, hc⟩ := hhead
  constructor
  · intro indent depth
    refine ⟨c, tail, (hwrite indent depth).trans hcs, ?_⟩
    rcases hc with halnum | rfl
    · simp [opensValue, halnum]
    · rfl
  · intro indent depth bound rest hrest _
    rw [hwrite, ← hread rest hrest, hcs, List.cons_append, readValue_plain hc]

theorem readsBack_integer {n : Int} (h : decimalLength n.natAbs ≤ maxIntegerDigits) :
    ReadsBack (integer n) := by
  have hhead : ∃ c tail, intChars n = c :: tail ∧ (c.isAlphanum = true ∨ c = '-') := by
    obtain ⟨c, tail, hdigits, hc⟩ := (Written.isCanonical_ofNat n.natAbs).exists_head
    rw [intChars]
    split
    · exact ⟨'-', _, rfl, .inr rfl⟩
    · exact ⟨c, tail, hdigits, .inl (by simp [Char.isAlphanum, hc])⟩
  exact readsBack_plain (fun _ _ => rfl) hhead fun rest hrest => readPlain_integer h hrest

theorem readsBack_real (x : Binary64) : ReadsBack (real x) := by
  have hhead : ∃ c tail, (writeReal x).toList = c :: tail ∧ (c.isAlphanum = true ∨ c = '-') := by
    cases x with
    | nan => exact ⟨'N', _, rfl, .inl rfl⟩
    | infinite negative =>
        cases negative with
        | true => exact ⟨'-', _, rfl, .inr rfl⟩
        | false => exact ⟨'I', _, rfl, .inl rfl⟩
    | finite negative rank =>
        obtain ⟨c, tail, hwhole, hc⟩ := (Written.isNumeral_shortest rank.val).exists_head
        simp only [writeReal, Binary64.shortestText, Binary64.write, String.toList_ofList]
        rw [Written.write_shortest, Written.chars, hwhole]
        cases negative with
        | true => exact ⟨'-', _, rfl, .inr rfl⟩
        | false => exact ⟨c, _, rfl, .inl (by simp [Char.isAlphanum, hc])⟩
  exact readsBack_plain (fun _ _ => rfl) hhead fun rest hrest => readPlain_real x hrest

theorem readsBack_text {value : Text.Points} (h : value.IsJoined) : ReadsBack (text value) where
  starts _ _ := ⟨'"', _, rfl, rfl⟩
  read _ _ _ rest _ _ := by
    obtain ⟨body, hwrite, hread⟩ := readText_writeText h rest
    rw [write, hwrite, List.cons_append, readValue, hread]
    rfl

/-! ## Lists -/

theorem writeItems_eq_map (indent : Option Nat) (depth : Nat) (items : List Json) :
    writeItems indent depth items = items.map (write indent depth) := by
  induction items with
  | nil => rfl
  | cons item items ih => rw [writeItems, ih, List.map_cons]

theorem writeItems_ne_nil {items : List Json} (hne : items ≠ [])
    (indent : Option Nat) (depth : Nat) : writeItems indent depth items ≠ [] := by
  simpa [writeItems_eq_map] using hne

theorem startsValue_items {items : List Json} (hne : items ≠ [])
    (hitems : ∀ item ∈ items, ReadsBack item) (indent : Option Nat) (depth : Nat)
    (separator : List Char) :
    StartsValue (List.intercalate separator (writeItems indent depth items)) := by
  rw [writeItems_eq_map]
  refine startsValue_intercalate (by simpa using hne) (fun part hpart => ?_) separator
  obtain ⟨item, hitem, rfl⟩ := List.mem_map.1 hpart
  exact (hitems item hitem).starts indent depth

/-- One item is read, and what follows it tells whether there are more. -/
theorem readItems_write_cons {item : Json} (hitem : ReadsBack item) (indent : Option Nat)
    (depth : Nat) {bound : Nat} {rest : List Char} (hrest : EndsNumeral rest)
    (hbound : (write indent depth item).length ≤ bound) :
    readItems (bound + 1 + 1) (write indent depth item ++ rest) =
      match skipSpace rest with
      | ',' :: rest => (readItems (bound + 1) (skipSpace rest)).map fun (items, rest) =>
          (item :: items, rest)
      | ']' :: rest => .ok ([item], rest)
      | _ => .error .notJson := by
  simp only [readItems, hitem.read indent depth hrest hbound, bind, Except.bind]
  rfl

/-- The items of a list are read back up to its end. The induction is on the items; reading one of
them takes a step off the bound and a comma off the text, so the bound stays large enough. -/
theorem readItems_write {items : List Json} (hne : items ≠ [])
    (hitems : ∀ item ∈ items, ReadsBack item) (indent : Option Nat) (depth outer : Nat)
    {bound : Nat} (rest : List Char)
    (hbound : (List.intercalate (',' :: newLine indent depth)
      (writeItems indent depth items)).length + 2 ≤ bound) :
    readItems bound (List.intercalate (',' :: newLine indent depth)
      (writeItems indent depth items) ++ (newLine indent outer ++ ']' :: rest)) =
        .ok (items, rest) := by
  induction items generalizing bound with
  | nil => exact absurd rfl hne
  | cons item items ih =>
      have hitem := hitems item List.mem_cons_self
      obtain ⟨bound, rfl⟩ : ∃ n, bound = n + 1 + 1 := ⟨bound - 2, by omega⟩
      cases items with
      | nil =>
          simp only [writeItems, List.intercalate_singleton] at hbound ⊢
          have hends :=
            endsNumeral_newLine (endsNumeral_cons (c := ']') (by decide) rest) indent outer
          rw [readItems_write_cons hitem indent depth hends (by omega), skipSpace_newLine]
          rfl
      | cons next items =>
          have hothers := fun other hmem => hitems other (List.mem_cons_of_mem item hmem)
          have hstarts := startsValue_items (List.cons_ne_nil next items) hothers indent depth
            (',' :: newLine indent depth)
          rw [writeItems, List.intercalate_cons_of_ne_nil
            (writeItems_ne_nil (List.cons_ne_nil next items) indent depth)] at hbound ⊢
          simp only [List.length_append, List.length_cons] at hbound
          rw [List.append_assoc, List.append_assoc, List.cons_append]
          -- A line starts behind the comma, and its first character is that of the next item.
          have hread := @ih (List.cons_ne_nil next items) hothers (bound + 1) (by omega)
          rw [← (hstarts.append _).skipSpace, ← skipSpace_newLine indent depth] at hread
          rw [readItems_write_cons hitem indent depth (endsNumeral_cons (by decide) _) (by omega)]
          show (readItems (bound + 1) (skipSpace _)).map _ = _
          rw [hread]
          rfl

/-- A list is read back if its items are. -/
theorem readsBack_list {items : List Json} (hitems : ∀ item ∈ items, ReadsBack item) :
    ReadsBack (list items) := by
  by_cases hne : items = []
  · subst hne
    exact ⟨fun _ _ => ⟨'[', _, rfl, rfl⟩, fun _ _ _ _ _ _ => rfl⟩
  · have happend := fun indent depth =>
      enclose_append (writeItems_ne_nil hne indent (depth + 1)) indent depth '[' ']'
    constructor
    · intro indent depth
      exact ⟨'[', _, (List.append_nil _).symm.trans (happend indent depth []), rfl⟩
    · intro indent depth bound rest _ hbound
      have hstarts := startsValue_items hne hitems indent (depth + 1)
        (',' :: newLine indent (depth + 1))
      have hlength :=
        length_enclose (writeItems_ne_nil hne indent (depth + 1)) indent depth '[' ']'
      rw [write] at hbound ⊢
      rw [happend, readValue_list (hstarts.append _),
        readItems_write hne hitems indent (depth + 1) depth rest (by omega)]
      rfl

/-! ## Objects -/

theorem writeFields_eq_map (indent : Option Nat) (depth : Nat)
    (fields : List (Text.Points × Json)) :
    writeFields indent depth fields =
      fields.map fun (key, value) => writeText key ++ ':' :: ' ' :: write indent depth value := by
  induction fields with
  | nil => rfl
  | cons field fields ih =>
      obtain ⟨key, value⟩ := field
      rw [writeFields, ih, List.map_cons]

theorem writeFields_ne_nil {fields : List (Text.Points × Json)} (hne : fields ≠ [])
    (indent : Option Nat) (depth : Nat) : writeFields indent depth fields ≠ [] := by
  simpa [writeFields_eq_map] using hne

theorem startsValue_fields {fields : List (Text.Points × Json)} (hne : fields ≠ [])
    (indent : Option Nat) (depth : Nat) (separator : List Char) :
    StartsValue (List.intercalate separator (writeFields indent depth fields)) := by
  rw [writeFields_eq_map]
  refine startsValue_intercalate (by simpa using hne) (fun part hpart => ?_) separator
  obtain ⟨field, hfield, rfl⟩ := List.mem_map.1 hpart
  exact ⟨'"', _, rfl, rfl⟩

/-- One field is read, and what follows it tells whether there are more. -/
theorem readFields_write_cons {key : Text.Points} (hkey : key.IsJoined) {value : Json}
    (hvalue : ReadsBack value) (indent : Option Nat) (depth : Nat) {bound : Nat} {rest : List Char}
    (hrest : EndsNumeral rest) (hbound : (write indent depth value).length ≤ bound) :
    readFields (bound + 1 + 1)
        (writeText key ++ ':' :: ' ' :: write indent depth value ++ rest) =
      match skipSpace rest with
      | ',' :: rest => (readFields (bound + 1) (skipSpace rest)).map fun (fields, rest) =>
          ((key, value) :: fields, rest)
      | '\x7d' :: rest => .ok ([(key, value)], rest)
      | _ => .error .notJson := by
  obtain ⟨body, hwrite, hread⟩ :=
    readText_writeText hkey (':' :: ' ' :: (write indent depth value ++ rest))
  have hcolon : skipSpace (':' :: ' ' :: (write indent depth value ++ rest)) =
      ':' :: ' ' :: (write indent depth value ++ rest) := rfl
  have hblank : skipSpace (' ' :: (write indent depth value ++ rest)) =
      write indent depth value ++ rest := ((hvalue.starts indent depth).append rest).skipSpace
  rw [hwrite, List.append_assoc, List.cons_append, List.cons_append, List.cons_append]
  simp only [readFields, hread, hcolon, hblank, hvalue.read indent depth hrest hbound, bind,
    Except.bind]
  rfl

/-- The fields of an object are read back up to its end, by the same induction. -/
theorem readFields_write {fields : List (Text.Points × Json)} (hne : fields ≠ [])
    (hjoined : ∀ field ∈ fields, field.1.IsJoined)
    (hfields : ∀ field ∈ fields, ReadsBack field.2) (indent : Option Nat) (depth outer : Nat)
    {bound : Nat} (rest : List Char)
    (hbound : (List.intercalate (',' :: newLine indent depth)
      (writeFields indent depth fields)).length + 2 ≤ bound) :
    readFields bound (List.intercalate (',' :: newLine indent depth)
      (writeFields indent depth fields) ++ (newLine indent outer ++ '\x7d' :: rest)) =
        .ok (fields, rest) := by
  induction fields generalizing bound with
  | nil => exact absurd rfl hne
  | cons field fields ih =>
      obtain ⟨key, value⟩ := field
      have hvalue : ReadsBack value := hfields (key, value) List.mem_cons_self
      have hkey : key.IsJoined := hjoined (key, value) List.mem_cons_self
      obtain ⟨bound, rfl⟩ : ∃ n, bound = n + 1 + 1 := ⟨bound - 2, by omega⟩
      cases fields with
      | nil =>
          simp only [writeFields, List.intercalate_singleton] at hbound ⊢
          simp only [List.length_append, List.length_cons] at hbound
          have hends := endsNumeral_newLine (endsNumeral_cons (c := '\x7d') (by decide) rest) indent
            outer
          rw [readFields_write_cons hkey hvalue indent depth hends (by omega), skipSpace_newLine]
          rfl
      | cons next fields =>
          have hmore := fun other hmem => hjoined other (List.mem_cons_of_mem _ hmem)
          have hothers := fun other hmem => hfields other (List.mem_cons_of_mem _ hmem)
          have hstarts := startsValue_fields (List.cons_ne_nil next fields) indent depth
            (',' :: newLine indent depth)
          rw [writeFields, List.intercalate_cons_of_ne_nil
            (writeFields_ne_nil (List.cons_ne_nil next fields) indent depth)] at hbound ⊢
          simp only [List.length_append, List.length_cons] at hbound
          have hread := @ih (List.cons_ne_nil next fields) hmore hothers (bound + 1) (by omega)
          rw [← (hstarts.append _).skipSpace, ← skipSpace_newLine indent depth] at hread
          rw [List.append_assoc, List.append_assoc, List.cons_append,
            readFields_write_cons hkey hvalue indent depth (endsNumeral_cons (by decide) _)
              (by omega)]
          show (readFields (bound + 1) (skipSpace _)).map _ = _
          rw [hread]
          rfl

/-- An object is read back if its values are, its names are joined and none occurs twice. -/
theorem readsBack_object {fields : List (Text.Points × Json)} (hnames : (names fields).Nodup)
    (hjoined : ∀ field ∈ fields, field.1.IsJoined)
    (hfields : ∀ field ∈ fields, ReadsBack field.2) : ReadsBack (object fields) := by
  by_cases hne : fields = []
  · subst hne
    exact ⟨fun _ _ => ⟨'\x7b', _, rfl, rfl⟩, fun _ _ _ _ _ _ => rfl⟩
  · have happend := fun indent depth =>
      enclose_append (writeFields_ne_nil hne indent (depth + 1)) indent depth '\x7b' '\x7d'
    constructor
    · intro indent depth
      exact ⟨'\x7b', _, (List.append_nil _).symm.trans (happend indent depth []), rfl⟩
    · intro indent depth bound rest _ hbound
      have hstarts := startsValue_fields hne indent (depth + 1)
        (',' :: newLine indent (depth + 1))
      have hlength :=
        length_enclose (writeFields_ne_nil hne indent (depth + 1)) indent depth '\x7b' '\x7d'
      have hput : mergeFields [] fields = fields :=
        (@mergeFields_eq_overwrite _ _ _ _ hnames [] List.nodup_nil).trans overwrite_nil
      rw [write] at hbound ⊢
      rw [happend, readValue_object (hstarts.append _),
        readFields_write hne hjoined hfields indent (depth + 1) depth rest (by omega)]
      show Except.ok (object (mergeFields [] fields), rest) = _
      rw [hput]

/-! ## Every value -/

/-- A value that a text can spell is read back in any surroundings. -/
theorem IsReadable.readsBack {v : Json} (h : IsReadable v) : ReadsBack v := by
  induction h with
  | null => exact readsBack_plain (fun _ _ => rfl) ⟨'n', _, rfl, .inl rfl⟩ fun _ _ => rfl
  | bool value =>
      cases value with
      | true => exact readsBack_plain (fun _ _ => rfl) ⟨'t', _, rfl, .inl rfl⟩ fun _ _ => rfl
      | false => exact readsBack_plain (fun _ _ => rfl) ⟨'f', _, rfl, .inl rfl⟩ fun _ _ => rfl
  | integer h => exact readsBack_integer h
  | real value => exact readsBack_real value
  | text h => exact readsBack_text h
  | list _ ih => exact readsBack_list ih
  | object hnames hjoined _ ih => exact readsBack_object hnames hjoined ih

/-- The whole text of a value is parsed as the value. -/
theorem parse_write {v : Json} (h : IsReadable v) (indent : Option Nat) :
    parse (write indent 0 v) = .ok v := by
  have hread := h.readsBack.read indent 0 endsNumeral_nil (Nat.le_refl _)
  rw [List.append_nil] at hread
  rw [parse, (h.readsBack.starts indent 0).skipSpace, hread]
  rfl

/-- The text of a settings file is parsed as the value it was written for. -/
theorem parse_pretty {v : Json} (h : IsReadable v) : parse v.pretty.toList = .ok v := by
  rw [pretty, String.toList_ofList]
  exact parse_write h (some 4)

/-- A name of two halves that make up a surrogate pair is written like that of their character. -/
theorem pretty_halves (known : List (Text.Points × Json)) (value : Json) :
    (Json.object (known ++ [([.half 0, .half 0x400], value)])).pretty =
      (Json.object (known ++ [(.ofString "𐀀", value)])).pretty := by
  have hname : writeText [.half 0, .half 0x400] = writeText "𐀀" := by decide
  simp only [pretty, write, writeFields_eq_map, List.map_append, List.map_cons, List.map_nil, hname]

end Json

end Reckoner
