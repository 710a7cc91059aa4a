import Reckoner.Proofs.Settings.Loading

/-!
# What is left of an override

The override of the log level is one of the settings in force like any other, so whoever saves the
settings in force saves it too. Once it is no longer set from outside, every name has the value that
it had before, except the names that were set in between and the log level itself, which the file
now gives.

Settings that come of objects are fields that give every name that the defaults give. Loading,
overriding, setting and saving all keep that (`IsComplete`), and it is why the defaults change
nothing when what was saved is merged over them.

## Main results

* `IsComplete.merge`: fields stay complete when others are set over them.
* `Store.lookup_save_of_isComplete`: what is saved is looked up with the same values.
* `Store.override_keeps_other_settings`: what the names stand for after the override is gone.
-/

namespace Reckoner.Settings

open Json

/-! ## Complete fields -/

/-- Fields of an object that give every name that the defaults give. -/
structure IsComplete (fields : List (Text.Points × Json)) : Prop where
  isReadable : (Json.object fields).IsReadable
  givesDefaults : ∀ name, (fields.lookup name).or (defaultFields.lookup name) = fields.lookup name

theorem isComplete_defaultFields : IsComplete defaultFields where
  isReadable := isStorable_defaultFields.isReadable
  givesDefaults _ := Option.or_self

section Fields

variable {known fields : List (Text.Points × Json)}

/-- Fields of an object give each name its value, and the known ones keep the other names. -/
theorem lookup_mergeFields_object (hfields : (Json.object fields).IsReadable)
    (name : Text.Points) :
    (mergeFields known fields).lookup name = (fields.lookup name).or (known.lookup name) := by
  cases hfields with
  | object hnames _ _ => rw [lookup_mergeFields, lastValue_of_nodup hnames]

/-- Fields stay complete when others are set over them. -/
theorem IsComplete.merge (hknown : IsComplete known) (hfields : (Json.object fields).IsReadable) :
    IsComplete (mergeFields known fields) := by
  constructor
  · apply isReadable_mergeFields _ hknown.isReadable
    cases hfields with
    | object _ hjoined hvalues =>
        intro field hfield
        exact ⟨hjoined field hfield, hvalues field hfield⟩
  · intro name
    rw [lookup_mergeFields_object hfields, Option.or_assoc, hknown.givesDefaults]

/-! ## The value of a name -/

/-- What a name stands for among fields: null if it is no text. -/
def valueOf (fields : List (Text.Points × Json)) : Json → Json
  | .text name => (fields.lookup name).getD .null
  | _ => .null

theorem valueOf_congr {name : Json}
    (h : ∀ text, name = .text text → known.lookup text = fields.lookup text) :
    valueOf known name = valueOf fields name := by
  unfold valueOf
  split
  · next text => rw [h text rfl]
  · rfl

theorem Key.text_beq_iff {name : Text.Points} {key : Key} :
    (Key.text name == key) = true ↔ key = .text name := by
  rw [Key.beq_iff_canonical]
  cases key with
  | null => simp [Key.canonical]
  | bool value => simp [Key.canonical]
  | integer value => simp [Key.canonical]
  | real value =>
      simp only [Key.canonical, reduceCtorEq, iff_false]
      split <;> simp
  | text other => simp [Key.canonical, eq_comm]

theorem get?_textEntries (name : Text.Points) :
    get? ⟨textEntries fields⟩ (.text name) = fields.lookup name := by
  unfold get?
  induction fields with
  | nil => rfl
  | cons field fields ih =>
      have hname : (Key.text field.1 == Key.text name) = (name == field.1) := by
        rw [Bool.eq_iff_iff, Key.text_beq_text, beq_iff_eq, eq_comm]
      rw [textEntries_cons, List.find?_cons, List.lookup_cons, hname]
      cases name == field.1 with
      | true => rfl
      | false => exact ih

/-- A name that is no text has no value among settings that are named by text. -/
theorem get?_textEntries_of_not_text {key : Key} (h : ∀ name, key ≠ .text name) :
    get? ⟨textEntries fields⟩ key = none := by
  unfold get?
  rw [List.find?_eq_none.2, Option.map_none]
  intro entry hentry
  obtain ⟨field, -, rfl⟩ := List.mem_map.1 hentry
  exact mt Key.text_beq_iff.1 (h field.1)

end Fields

/-! ## Setting the override, saving, and taking it away -/

namespace Store

/-- The file is absent or holds an object. -/
def HoldsObject (store : Store) : Prop :=
  store.file = none ∨ ∃ fields, store.HoldsJson (.object fields)

/-- The store with the log level that is set from outside, if one is. -/
def withLevel (store : Store) (level : Option Text.Points) : Store :=
  { store with levelOverride := level }

variable {store : Store} {held saved fields : List (Text.Points × Json)} {level : Text.Points}

theorem loadFile_of_holdsObject (h : store.HoldsObject) :
    ∃ held, IsComplete held ∧ store.loadFile = .ok ⟨textEntries held⟩ := by
  rcases h with habsent | ⟨fields, text, htext, hparse⟩
  · refine ⟨defaultFields, isComplete_defaultFields, ?_⟩
    rw [loadFile, text?, habsent]
    rfl
  · refine ⟨mergeFields defaultFields fields, ?_, ?_⟩
    · exact isComplete_defaultFields.merge (isReadable_of_parse hparse)
    · rw [loadFile_of_holdsJson ⟨text, htext, hparse⟩, merge, defaults_eq_textEntries,
        putFields_textEntries]

theorem load_withLevel_none (h : store.loadFile = .ok ⟨textEntries held⟩) :
    (store.withLevel none).load = .ok ⟨textEntries held⟩ := by
  have hfile : (store.withLevel none).loadFile = .ok ⟨textEntries held⟩ := h
  apply load_of_not_overrides hfile
  rintro level ⟨hlevel, -⟩
  cases hlevel

/-- The override is set over what the file gives, as one more field. -/
theorem load_withLevel_some (h : store.loadFile = .ok ⟨textEntries held⟩) (hlevel : level ≠ []) :
    (store.withLevel (some level)).load =
      .ok ⟨textEntries (mergeFields held [(.ofString levelName, .text level)])⟩ := by
  have hfile : (store.withLevel (some level)).loadFile = .ok ⟨textEntries held⟩ := h
  rw [load_of_overrides hfile ⟨rfl, hlevel⟩, put, putField_textEntries]
  rfl

theorem update_of_load (h : store.load = .ok ⟨textEntries held⟩) :
    store.update fields =
      .ok (⟨textEntries (mergeFields held fields)⟩,
        store.save (.object (mergeFields held fields))) := by
  rw [update, h]
  show Except.ok (putFields ⟨textEntries held⟩ fields,
    store.save (putFields ⟨textEntries held⟩ fields).toJson) = _
  rw [putFields_textEntries, toJson_textEntries]

theorem lookup_eq_valueOf (h : store.load = .ok ⟨textEntries held⟩) {name : Json}
    (hname : ¬ IsCompound name) (hall : name ≠ .text allName) :
    store.lookup name = .ok (.value (valueOf held name)) := by
  cases name with
  | text text =>
      rw [lookup_text h fun heq => hall (congrArg Json.text heq), get?_textEntries]
      rfl
  | list items => exact absurd trivial hname
  | object fields => exact absurd trivial hname
  | null | bool | integer | real =>
      rw [lookup, h]
      show Except.ok (Found.value (Option.getD (get? ⟨textEntries held⟩ _) .null)) = _
      rw [get?_textEntries_of_not_text fun _ heq => by cases heq]
      rfl

/-- What is saved is looked up with the same values, because the defaults give no name that it does
not give. -/
theorem lookup_save_of_isComplete (store : Store) (hsaved : IsComplete saved) {name : Json}
    (hname : ¬ IsCompound name) (hall : name ≠ .text allName) :
    ((store.save (.object saved)).withLevel none).lookup name =
      .ok (.value (valueOf saved name)) := by
  have hnone : (store.withLevel none).levelOverride = none := rfl
  have hload : ((store.withLevel none).save (.object saved)).load =
      .ok ⟨textEntries (mergeFields defaultFields saved)⟩ := by
    rw [load_save hnone hsaved.isReadable, merge, defaults_eq_textEntries, putFields_textEntries]
  refine (lookup_eq_valueOf hload hname hall).trans ?_
  rw [valueOf_congr]
  intro text _
  rw [lookup_mergeFields_object hsaved.isReadable, hsaved.givesDefaults]

theorem lookup_level_of_saved (store : Store) (hsaved : IsComplete saved)
    (hlevel : saved.lookup (.ofString levelName) = some (.text level)) :
    ((store.save (.object saved)).withLevel none).lookup (.text levelName) =
      .ok (.value (.text level)) := by
  have hall : Json.text levelName ≠ .text allName := mt Json.text.inj (by decide)
  rw [lookup_save_of_isComplete store hsaved id hall, valueOf, hlevel]
  rfl

/-- One field named by a text of characters. -/
theorem isReadable_singleton (name : String) {value : Json} (h : value.IsReadable) :
    (Json.object [(.ofString name, value)]).IsReadable := by
  have hnames : (Json.names [(Text.Points.ofString name, value)]).Nodup := List.nodup_singleton _
  apply IsReadable.object hnames
  · exact List.forall_mem_singleton.2 (Text.Points.isJoined_ofString name)
  · exact List.forall_mem_singleton.2 h

theorem isReadable_level (h : level.IsJoined) :
    (Json.object [(.ofString levelName, .text level)]).IsReadable :=
  isReadable_singleton levelName (.text h)

/-- While the log level is set from outside, fields are set over the settings in force and all of
them are saved: the fields, the override under its name, and the other settings as the file gives
them. -/
theorem update_overridden (hfile : store.loadFile = .ok ⟨textEntries held⟩)
    (hheld : IsComplete held) (hlevel : level ≠ []) (hjoined : level.IsJoined)
    (hfields : (Json.object fields).IsReadable) :
    ∃ saved, IsComplete saved ∧
      (store.withLevel (some level)).update fields =
        .ok (⟨textEntries saved⟩, (store.withLevel (some level)).save (.object saved)) ∧
      ∀ name, saved.lookup name =
        (fields.lookup name).or
          (if name = .ofString levelName then some (.text level) else held.lookup name) := by
  have hlevelled := hheld.merge (isReadable_level hjoined)
  refine ⟨_, hlevelled.merge hfields, update_of_load (load_withLevel_some hfile hlevel), ?_⟩
  intro name
  rw [lookup_mergeFields_object hfields, lookup_mergeFields_object (isReadable_level hjoined),
    List.lookup_cons, List.lookup_nil]
  by_cases hname : name = .ofString levelName
  · rw [if_pos hname, beq_iff_eq.2 hname]
    rfl
  · rw [if_neg hname, beq_eq_false_iff_ne.2 hname]
    rfl

/-- Fields are set and saved while the log level is set from outside, and then it is set no longer.
Every name but those of the fields has the same value as before it was set, except the log level:
that was saved, so the file gives it from now on. -/
theorem override_keeps_other_settings (hfile : store.HoldsObject) (hlevel : level ≠ [])
    (hjoined : level.IsJoined) (hfields : (Json.object fields).IsReadable)
    (hfree : Text.Points.ofString levelName ∉ Json.names fields) :
    ∃ settings after, (store.withLevel (some level)).update fields = .ok (settings, after) ∧
      (∀ name : Json, ¬ IsCompound name → name ≠ .text allName → name ≠ .text levelName →
        (∀ field ∈ fields, name ≠ .text field.1) →
          ∃ value, (store.withLevel none).lookup name = .ok (.value value) ∧
            (after.withLevel none).lookup name = .ok (.value value)) ∧
      (after.withLevel none).lookup (.text levelName) = .ok (.value (.text level)) := by
  obtain ⟨held, hheld, hloaded⟩ := loadFile_of_holdsObject hfile
  obtain ⟨saved, hsaved, hupdate, hvalues⟩ :=
    update_overridden hloaded hheld hlevel hjoined hfields
  refine ⟨_, _, hupdate, ?_, ?_⟩
  · intro name hname hall hother hnew
    refine ⟨_, lookup_eq_valueOf (load_withLevel_none hloaded) hname hall, ?_⟩
    rw [lookup_save_of_isComplete _ hsaved hname hall, valueOf_congr]
    rintro text rfl
    have hnone : fields.lookup text = none := by
      apply lookup_eq_none
      intro hmem
      obtain ⟨field, hfield, rfl⟩ := List.mem_map.1 hmem
      exact hnew field hfield rfl
    rw [hvalues, hnone, if_neg fun heq => hother (congrArg Json.text heq)]
    rfl
  · apply lookup_level_of_saved _ hsaved
    rw [hvalues, lookup_eq_none hfree]
    rfl

theorem isReadable_places : (Json.object [(.ofString placesName, .integer 4)]).IsReadable :=
  isReadable_singleton placesName (.integer (by decide +kernel))

/-- The file gives a name that is not known and the number of places, which is then set anew. -/
theorem theme_is_kept :
    let content : Json := .object
      [(.ofString "theme", .text (.ofString "dark")), (.ofString placesName, .integer 3)]
    let fields : List (Text.Points × Json) := [(.ofString placesName, .integer 4)]
    let level : Text.Points := .ofString "DEBUG"
    let store := empty.save content
    store.HoldsObject ∧ level ≠ [] ∧ level.IsJoined ∧ (Json.object fields).IsReadable ∧
      Text.Points.ofString levelName ∉ Json.names fields ∧
      ∃ after,
        (∃ settings, (store.withLevel (some level)).update fields = .ok (settings, after)) ∧
        (∃ value, (store.withLevel none).lookup (.text "theme") = .ok (.value value) ∧
          (after.withLevel none).lookup (.text "theme") = .ok (.value value)) ∧
        (after.withLevel none).lookup (.text levelName) = .ok (.value (.text level)) := by
  intro content fields level store
  have hcontent : content.IsReadable := by
    refine .object (by decide) ?_ ?_ <;> simp only [List.forall_mem_cons]
    · exact ⟨Text.Points.isJoined_ofString _, Text.Points.isJoined_ofString _,
        List.forall_mem_nil _⟩
    · exact ⟨.text (Text.Points.isJoined_ofString _), .integer (by decide +kernel),
        List.forall_mem_nil _⟩
  have hstore : store.HoldsObject := .inr ⟨_, holdsJson_save empty hcontent⟩
  have hfree : Text.Points.ofString levelName ∉ Json.names fields := by decide
  have hlevel : level ≠ [] := by decide
  have hjoined : level.IsJoined := Text.Points.isJoined_ofString "DEBUG"
  obtain ⟨settings, after, hupdate, hkept, hlast⟩ :=
    override_keeps_other_settings hstore hlevel hjoined isReadable_places hfree
  refine ⟨hstore, hlevel, hjoined, isReadable_places, hfree, after, ⟨settings, hupdate⟩, ?_, hlast⟩
  apply hkept (.text "theme")
  · exact id
  · exact mt Json.text.inj (by decide)
  · exact mt Json.text.inj (by decide)
  · exact List.forall_mem_singleton.2 (mt Json.text.inj (by decide))

/-- Without a file the usual log level is in force, but an update made under another one leaves the
other one in the file. A name of two halves that make up a surrogate pair comes back from the file
as the name of one character, which had no value before. -/
theorem override_stays_in_file :
    let fields : List (Text.Points × Json) := [(.ofString placesName, .integer 4)]
    let level : Text.Points := .ofString "DEBUG"
    empty.HoldsObject ∧ level ≠ [] ∧ level.IsJoined ∧ (Json.object fields).IsReadable ∧
      Text.Points.ofString levelName ∉ Json.names fields ∧
      (empty.withLevel none).lookup (.text levelName) = .ok (.value (.text "INFO")) ∧
      (∃ settings after, (empty.withLevel (some level)).update fields = .ok (settings, after) ∧
        (after.withLevel none).lookup (.text levelName) = .ok (.value (.text "DEBUG"))) ∧
      (empty.withLevel none).lookup (.text "𐀀") = .ok (.value .null) ∧
      ∃ settings after,
        (empty.withLevel (some level)).update [([.half 0, .half 0x400], .bool true)] =
          .ok (settings, after) ∧
        (after.withLevel none).lookup (.text "𐀀") = .ok (.value (.bool true)) := by
  intro fields level
  have hlevel : level ≠ [] := by decide
  have hjoined : level.IsJoined := Text.Points.isJoined_ofString "DEBUG"
  have hfree : Text.Points.ofString levelName ∉ Json.names fields := by decide
  have hfile : empty.loadFile = .ok ⟨textEntries defaultFields⟩ := rfl
  refine ⟨.inl rfl, hlevel, hjoined, isReadable_places, hfree, rfl, ?_, rfl, _, _,
    update_of_load (load_withLevel_some hfile hlevel), ?_⟩
  · obtain ⟨saved, hsaved, hupdate, hvalues⟩ :=
      update_overridden hfile isComplete_defaultFields hlevel hjoined isReadable_places
    refine ⟨_, _, hupdate, ?_⟩
    apply lookup_level_of_saved _ hsaved
    rw [hvalues, lookup_eq_none hfree]
    rfl
  · let known := mergeFields defaultFields [(.ofString levelName, .text level)]
    have hknown : IsComplete known := isComplete_defaultFields.merge (isReadable_level hjoined)
    have hsaved : IsComplete (known ++ [(.ofString "𐀀", .bool true)]) :=
      hknown.merge (isReadable_singleton "𐀀" (.bool true))
    have hsame : (empty.withLevel (some level)).save
          (.object (known ++ [([.half 0, .half 0x400], .bool true)])) =
        (empty.withLevel (some level)).save (.object (known ++ [(.ofString "𐀀", .bool true)])) :=
      congrArg (write _) (pretty_halves known (.bool true))
    have hall : Json.text "𐀀" ≠ .text allName := mt Json.text.inj (by decide)
    have hlookup := lookup_save_of_isComplete (empty.withLevel (some level)) hsaved id hall
    rw [← hsame] at hlookup
    exact hlookup

end Store

end Reckoner.Settings
