import Reckoner.Json.Basic

/-!
# Setting fields

Fields that are set one after the other over known ones change the values of those that are known,
in their places, and come last in their own order if they are new. Where no name occurs twice, this
is `overwrite`, and doing it a second time changes nothing.

## Main results

* `mergeFields_eq_overwrite`: setting fields one after the other overwrites.
* `overwrite_overwrite`: the result does not change when it is set over the known fields again.
* `lookup_mergeFields`: setting fields one after the other leaves each name with the last value that
  it was given.
-/

namespace Reckoner.Json

section Fields

variable {κ : Type} [BEq κ]

/-- The names of fields. -/
def names (fields : List (κ × Json)) : List κ := fields.map Prod.fst

/-- The known fields with others set one after the other. -/
def mergeFields (known fields : List (κ × Json)) : List (κ × Json) :=
  fields.foldl (fun known (name, value) => putField name value known) known

theorem mergeFields_cons (known : List (κ × Json)) (field : κ × Json) (fields : List (κ × Json)) :
    mergeFields known (field :: fields) = mergeFields (putField field.1 field.2 known) fields :=
  rfl

/-- The known fields with the values that the others give them, then the others that are new. -/
def overwrite (known fields : List (κ × Json)) : List (κ × Json) :=
  known.map (fun (name, value) => (name, (fields.lookup name).getD value))
    ++ fields.filter fun (name, _) => !(names known).contains name

/-- The last value that is given to a name. -/
def lastValue (fields : List (κ × Json)) (name : κ) : Option Json :=
  (fields.filter fun field => field.1 == name).getLast?.map Prod.snd

theorem lastValue_cons (field : κ × Json) (fields : List (κ × Json)) (name : κ) :
    lastValue (field :: fields) name =
      (lastValue fields name).or (if field.1 == name then some field.2 else none) := by
  unfold lastValue
  cases h : field.1 == name with
  | false => simp [h]
  | true =>
      cases hlast : (fields.filter fun other => other.1 == name).getLast? <;>
        simp [h, List.getLast?_cons, hlast]

variable [LawfulBEq κ] {known fields : List (κ × Json)}

/-! ## Looking up -/

theorem lookup_eq_none {name : κ} (h : name ∉ names fields) : fields.lookup name = none := by
  refine List.lookup_eq_none_iff.2 fun field hfield => bne_iff_ne.2 ?_
  rintro rfl
  exact h (List.mem_map.2 ⟨field, hfield, rfl⟩)

/-- Where no name occurs twice, every field is found by its name. -/
theorem lookup_of_mem (hnames : (names fields).Nodup) {name : κ} {value : Json}
    (h : (name, value) ∈ fields) : fields.lookup name = some value := by
  obtain ⟨before, after, rfl⟩ := List.append_of_mem h
  rw [names, List.map_append, List.nodup_append] at hnames
  refine List.lookup_eq_some_iff.2 ⟨before, after, rfl, fun field hfield => bne_iff_ne.2 ?_⟩
  have hne := hnames.2.2 field.1 (List.mem_map.2 ⟨field, hfield, rfl⟩) name List.mem_cons_self
  exact Ne.symm hne

theorem mem_of_lookup {name : κ} {value : Json} (h : fields.lookup name = some value) :
    (name, value) ∈ fields := by
  obtain ⟨before, after, rfl, -⟩ := List.lookup_eq_some_iff.1 h
  exact List.mem_append_right _ List.mem_cons_self

/-! ## Setting one field -/

/-- A known name keeps its place. -/
theorem putField_of_mem (hknown : (names known).Nodup) {name : κ} (h : name ∈ names known)
    (value : Json) :
    putField name value known =
      known.map fun (other, old) => (other, if other == name then value else old) := by
  induction known with
  | nil => cases h
  | cons field known ih =>
      obtain ⟨other, old⟩ := field
      simp only [names, List.map_cons, List.nodup_cons, List.mem_cons] at hknown h ih
      by_cases heq : other = name
      · subst heq
        have hrest : known.map (fun (next, old) => (next, if next == other then value else old)) =
            known := by
          refine (List.map_congr_left ?_).trans (List.map_id known)
          rintro ⟨next, old⟩ hmem
          have hne : next ≠ other := by
            rintro rfl
            exact hknown.1 (List.mem_map.2 ⟨_, hmem, rfl⟩)
          simp [hne]
        rw [putField, List.map_cons, hrest]
        simp
      · have hmem := h.resolve_left fun hname => heq hname.symm
        rw [putField, if_neg (by simpa using heq), List.map_cons, ih hknown.2 hmem]
        simp only [beq_eq_false_iff_ne.2 heq, Bool.false_eq_true, if_false]

/-- A new name comes last. -/
theorem putField_of_not_mem {name : κ} (h : name ∉ names known) (value : Json) :
    putField name value known = known ++ [(name, value)] := by
  induction known with
  | nil => rfl
  | cons field known ih =>
      obtain ⟨other, old⟩ := field
      simp only [names, List.map_cons, List.mem_cons, not_or] at h ih
      rw [putField, if_neg (by simpa using Ne.symm h.1), ih h.2, List.cons_append]

theorem names_putField (hknown : (names known).Nodup) (name : κ) (value : Json) :
    names (putField name value known) =
      if name ∈ names known then names known else names known ++ [name] := by
  by_cases h : name ∈ names known
  · rw [if_pos h, putField_of_mem hknown h, names, names, List.map_map]
    rfl
  · rw [if_neg h, putField_of_not_mem h, names, names, List.map_append]
    rfl

theorem nodup_putField (hknown : (names known).Nodup) (name : κ) (value : Json) :
    (names (putField name value known)).Nodup := by
  rw [names_putField hknown]
  split
  · exact hknown
  · next h =>
    rw [List.nodup_append]
    refine ⟨hknown, by simp, ?_⟩
    rintro other hother _ hname rfl
    rw [List.mem_singleton.1 hname] at hother
    exact h hother

/-! ## Setting fields -/

/-- Setting a field first, and then the others, is setting it with the others. -/
theorem overwrite_putField (hknown : (names known).Nodup) {name : κ} {value : Json}
    (hname : name ∉ names fields) :
    overwrite (putField name value known) fields = overwrite known ((name, value) :: fields) := by
  have hnone := lookup_eq_none hname
  have hnames := names_putField hknown name value
  by_cases h : name ∈ names known
  · rw [if_pos h] at hnames
    rw [overwrite, overwrite, hnames, putField_of_mem hknown h, List.map_map,
      List.filter_cons_of_neg (by simp [h])]
    congr 1
    refine List.map_congr_left ?_
    rintro ⟨other, old⟩ -
    simp only [Function.comp, List.lookup_cons]
    by_cases heq : other = name
    · subst heq
      simp [hnone]
    · simp only [beq_eq_false_iff_ne.2 heq, Bool.false_eq_true, if_false]
  · rw [if_neg h] at hnames
    have hfilter : (fields.filter fun (other, _) => !(names known ++ [name]).contains other) =
        fields.filter fun (other, _) => !(names known).contains other := by
      refine List.filter_congr ?_
      rintro ⟨other, old⟩ hmem
      have hne : other ≠ name := by
        rintro rfl
        exact hname (List.mem_map.2 ⟨_, hmem, rfl⟩)
      simp [hne]
    rw [overwrite, overwrite, hnames, hfilter, putField_of_not_mem h, List.map_append,
      List.append_assoc, List.filter_cons_of_pos (by simpa using h)]
    congr 1
    · refine List.map_congr_left ?_
      rintro ⟨other, old⟩ hmem
      have hne : other ≠ name := by
        rintro rfl
        exact h (List.mem_map.2 ⟨_, hmem, rfl⟩)
      simp only [List.lookup_cons, beq_eq_false_iff_ne.2 hne]
    · simp [hnone]

/-- Setting fields one after the other overwrites, where no name occurs twice. -/
theorem mergeFields_eq_overwrite (hfields : (names fields).Nodup) :
    ∀ {known : List (κ × Json)}, (names known).Nodup →
      mergeFields known fields = overwrite known fields := by
  induction fields with
  | nil =>
      intro known _
      simp [mergeFields, overwrite]
  | cons field fields ih =>
      intro known hknown
      obtain ⟨name, value⟩ := field
      simp only [names, List.map_cons, List.nodup_cons] at hfields
      rw [mergeFields_cons, ih hfields.2 (nodup_putField hknown name value),
        overwrite_putField hknown hfields.1]

/-- Setting fields over none gives the fields. -/
theorem overwrite_nil : overwrite [] fields = fields := by
  simp [overwrite, names]

/-- What is set is one of the known fields or of the others. -/
theorem mem_overwrite {field : κ × Json} (h : field ∈ overwrite known fields) :
    field ∈ known ∨ field ∈ fields := by
  rcases List.mem_append.1 h with hknown | hnew
  · obtain ⟨⟨name, old⟩, hmem, rfl⟩ := List.mem_map.1 hknown
    simp only
    cases hlookup : fields.lookup name with
    | none => exact .inl hmem
    | some value => exact .inr (mem_of_lookup hlookup)
  · exact .inr (List.mem_filter.1 hnew).1

omit [LawfulBEq κ] in
theorem names_overwrite :
    names (overwrite known fields) =
      names known ++ (names fields).filter fun name => !(names known).contains name := by
  rw [overwrite, names, List.map_append, List.map_map, names, names, List.filter_map]
  rfl

theorem nodup_overwrite (hknown : (names known).Nodup) (hfields : (names fields).Nodup) :
    (names (overwrite known fields)).Nodup := by
  rw [names_overwrite, List.nodup_append]
  refine ⟨hknown, hfields.filter _, ?_⟩
  rintro name hname _ hother rfl
  simp [hname] at hother

/-- The result does not change when it is set over the known fields again. -/
theorem overwrite_overwrite (hknown : (names known).Nodup) (hfields : (names fields).Nodup) :
    overwrite known (overwrite known fields) = overwrite known fields := by
  have hnodup := nodup_overwrite hknown hfields
  have hfirst : known.map (fun (name, value) =>
      (name, ((overwrite known fields).lookup name).getD value)) =
      known.map fun (name, value) => (name, (fields.lookup name).getD value) := by
    refine List.map_congr_left ?_
    rintro ⟨name, value⟩ hmem
    have hfound : (name, (fields.lookup name).getD value) ∈ overwrite known fields :=
      List.mem_append_left _ (List.mem_map.2 ⟨_, hmem, rfl⟩)
    simp [lookup_of_mem hnodup hfound]
  have hknownOut : (known.map (fun (name, value) =>
      (name, (fields.lookup name).getD value))).filter
        (fun (name, _) => !(names known).contains name) = [] := by
    rw [List.filter_eq_nil_iff]
    intro field hfield
    obtain ⟨⟨name, value⟩, hmem, rfl⟩ := List.mem_map.1 hfield
    have : name ∈ names known := List.mem_map.2 ⟨_, hmem, rfl⟩
    simp [this]
  have hnew : (overwrite known fields).filter (fun (name, _) => !(names known).contains name) =
      fields.filter fun (name, _) => !(names known).contains name := by
    rw [overwrite, List.filter_append, hknownOut, List.nil_append, List.filter_filter]
    simp only [Bool.and_self]
  rw [overwrite, hfirst, hnew, overwrite]

/-! ## Last values -/

theorem lookup_putField (name other : κ) (value : Json) :
    (putField name value known).lookup other =
      if other == name then some value else known.lookup other := by
  induction known with
  | nil =>
      rw [putField, List.lookup_cons]
      cases other == name <;> rfl
  | cons field known ih =>
      obtain ⟨first, old⟩ := field
      rw [putField]
      by_cases hfirst : first = name
      · subst hfirst
        rw [if_pos (beq_self_eq_true first), List.lookup_cons, List.lookup_cons]
        cases other == first <;> rfl
      · rw [if_neg (by simpa using hfirst), List.lookup_cons, List.lookup_cons, ih]
        by_cases hother : other = first
        · subst hother
          simp [hfirst]
        · simp [beq_eq_false_iff_ne.2 hother]

/-- Setting fields one after the other leaves each name with the last value that it was given. -/
theorem lookup_mergeFields (name : κ) :
    (mergeFields known fields).lookup name =
      (lastValue fields name).or (known.lookup name) := by
  induction fields generalizing known with
  | nil => rfl
  | cons field fields ih =>
      obtain ⟨first, value⟩ := field
      rw [mergeFields_cons, ih, lookup_putField, lastValue_cons, Option.or_assoc, BEq.comm]
      cases first == name <;> rfl

/-- Where no name occurs twice, the last value of a name is its only one. -/
theorem lastValue_of_nodup (hfields : (names fields).Nodup) (name : κ) :
    lastValue fields name = fields.lookup name := by
  induction fields with
  | nil => rfl
  | cons field fields ih =>
      obtain ⟨first, value⟩ := field
      simp only [names, List.map_cons, List.nodup_cons] at hfields ih
      rw [lastValue_cons, ih hfields.2, List.lookup_cons, BEq.comm]
      by_cases h : name = first
      · subst h
        rw [lookup_eq_none hfields.1]
        simp
      · simp [beq_eq_false_iff_ne.2 h]

end Fields

end Reckoner.Json
