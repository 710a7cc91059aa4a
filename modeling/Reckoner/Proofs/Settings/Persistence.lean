import Reckoner.Proofs.Json.Value
import Reckoner.Settings.Store

/-!
# Saved settings persist

An object that is saved is loaded again as the default settings with its fields set over them. What
was loaded holds every default setting already, so saving it changes neither the settings in force
nor, from then on, the text of the file.

## Main results

* `Store.load_save`: what is saved is merged over the defaults.
* `Store.saved_settings_persist`: however often the settings are loaded and saved again, they stay
  the same, and so does the file.
-/

namespace Reckoner.Settings

open Json

/-! ## Settings named by text -/

/-- Fields as entries of settings. -/
def textEntries (fields : List (Text.Points × Json)) : List (Key × Json) :=
  fields.map fun (name, value) => (.text name, value)

theorem textEntries_cons (field : Text.Points × Json) (fields : List (Text.Points × Json)) :
    textEntries (field :: fields) = (.text field.1, field.2) :: textEntries fields := rfl

/-- The default settings as the fields of an object. -/
def defaultFields : List (Text.Points × Json) :=
  defaults.entries.map fun (key, value) => (key.spelling, value)

theorem defaults_eq_textEntries : defaults = ⟨textEntries defaultFields⟩ := rfl

theorem toJson_textEntries (fields : List (Text.Points × Json)) :
    toJson ⟨textEntries fields⟩ = .object fields := by
  have hspelling : (textEntries fields).map (fun (key, value) => (key.spelling, value)) =
      fields := by
    rw [textEntries, List.map_map]
    exact (List.map_congr_left fun _ _ => rfl).trans (List.map_id fields)
  rw [toJson, hspelling]

theorem putField_textEntries (name : Text.Points) (value : Json)
    (fields : List (Text.Points × Json)) :
    putField (.text name) value (textEntries fields) =
      textEntries (putField name value fields) := by
  induction fields with
  | nil => rfl
  | cons field fields ih =>
      obtain ⟨other, old⟩ := field
      simp only [textEntries, List.map_cons, putField] at ih ⊢
      by_cases h : other = name
      · rw [if_pos (Key.text_beq_text.2 h), if_pos (beq_iff_eq.2 h), List.map_cons]
      · rw [if_neg (mt Key.text_beq_text.1 h), if_neg (mt beq_iff_eq.1 h), List.map_cons, ih]

/-- Setting the fields of an object is setting them over fields. -/
theorem putFields_textEntries (known fields : List (Text.Points × Json)) :
    putFields ⟨textEntries known⟩ fields =
      ⟨textEntries (mergeFields known fields)⟩ := by
  induction fields generalizing known with
  | nil => rfl
  | cons field fields ih =>
      obtain ⟨name, value⟩ := field
      rw [mergeFields_cons, ← ih, ← putField_textEntries]
      rfl

/-- An object merged over the defaults overwrites their fields. -/
theorem merge_defaults {fields : List (Text.Points × Json)} (h : (Json.names fields).Nodup) :
    defaults.merge (.object fields) = .ok ⟨textEntries (overwrite defaultFields fields)⟩ := by
  have hdefaults : (Json.names defaultFields).Nodup := by decide
  rw [merge, defaults_eq_textEntries, putFields_textEntries, mergeFields_eq_overwrite h hdefaults]

/-! ## What can be stored -/

theorem isStorable_defaultFields : (Json.object defaultFields).IsStorable := by
  refine .object (by decide) ?_ ?_ <;>
    simp only [defaultFields, defaults, List.map_cons, List.map_nil, List.forall_mem_cons]
  · exact ⟨⟨_, rfl⟩, ⟨_, rfl⟩, ⟨_, rfl⟩, ⟨_, rfl⟩, fun _ h => nomatch h⟩
  · exact ⟨.integer (by decide +kernel), .bool true, .text _, .text _, fun _ h => nomatch h⟩

/-- The defaults with fields that can be stored set over them can be stored. -/
theorem isStorable_overwrite {fields : List (Text.Points × Json)}
    (h : (Json.object fields).IsStorable) :
    (Json.object (overwrite defaultFields fields)).IsStorable := by
  cases isStorable_defaultFields with
  | object hdefaults hdefaultText hdefaultValues =>
      cases h with
      | object hnames htext hvalues =>
          refine .object (nodup_overwrite hdefaults hnames) ?_ ?_
          · intro field hfield
            exact (mem_overwrite hfield).elim (hdefaultText field) (htext field)
          · intro field hfield
            exact (mem_overwrite hfield).elim (hdefaultValues field) (hvalues field)

/-! ## Saving and loading -/

namespace Store

theorem fromUTF8?_toUTF8 (s : String) : String.fromUTF8? s.toUTF8 = some s := by
  simp only [String.fromUTF8?, String.toUTF8_eq_toByteArray, dif_pos s.isValidUTF8]
  rfl

/-- What is saved is merged over the defaults when it is loaded, unless the log level is set from
outside. -/
theorem load_save {store : Store} (hlevel : store.levelOverride = none) {content : Json}
    (h : content.IsReadable) : (store.save content).load = defaults.merge content := by
  have htext : (store.save content).text? = .ok (some content.pretty) := by
    simp only [text?, save, write, fromUTF8?_toUTF8]
  have hfile : (store.save content).loadFile = defaults.merge content := by
    rw [loadFile, htext]
    show ofText content.pretty = _
    rw [ofText, parse_pretty h]
  have hnone : (store.save content).levelOverride = none := hlevel
  rw [load, hfile, hnone]
  cases defaults.merge content <;> rfl

/-- A saved object is loaded as the default settings overwritten by it: the default names first, in
their order, then the others in theirs. -/
theorem lookup_all_save {store : Store} (hlevel : store.levelOverride = none)
    {fields : List (Text.Points × Json)} (h : (Json.object fields).IsStorable) :
    (store.save (.object fields)).lookup (.text allName) =
      .ok (.all ⟨textEntries (overwrite defaultFields fields)⟩) := by
  rw [lookup, load_save hlevel h.isReadable, merge_defaults h.nodup_names]
  rfl

/-- The store after the settings in force have been saved. -/
def resave (store : Store) : Except Refusal Store := do
  let found ← store.lookup (.text allName)
  return store.save found.toJson

/-- The store after that has been done a number of times. -/
def resaves (store : Store) : Nat → Except Refusal Store
  | 0 => .ok store
  | n + 1 => do (← store.resaves n).resave

/-- Saving replaces the file. -/
theorem save_save (store : Store) (old new : Json) : (store.save old).save new = store.save new :=
  rfl

theorem resave_eq {store : Store} {fields : List (Text.Points × Json)}
    (h : store.lookup (.text allName) = .ok (.all ⟨textEntries fields⟩)) :
    store.resave = .ok (store.save (.object fields)) := by
  rw [resave, h, ← toJson_textEntries]
  rfl

theorem resaves_succ {store next : Store} {n : Nat} (h : store.resaves n = .ok next) :
    store.resaves (n + 1) = next.resave := by
  rw [resaves, h]
  rfl

/-- However often the settings are loaded and saved again, they stay as they were loaded first, and
so does the file from the first of these times on. -/
theorem saved_settings_persist {store : Store} (hlevel : store.levelOverride = none)
    {fields : List (Text.Points × Json)} (h : (Json.object fields).IsStorable) :
    let loaded := overwrite defaultFields fields
    (store.save (.object fields)).lookup (.text allName) = .ok (.all ⟨textEntries loaded⟩) ∧
      ∀ n, (store.save (.object fields)).resaves (n + 1) = .ok (store.save (.object loaded)) ∧
        (store.save (.object loaded)).lookup (.text allName) =
          .ok (.all ⟨textEntries loaded⟩) := by
  intro loaded
  have hfirst := lookup_all_save hlevel h
  have hagain : (store.save (.object loaded)).lookup (.text allName) =
      .ok (.all ⟨textEntries loaded⟩) := by
    rw [lookup_all_save hlevel (isStorable_overwrite h),
      overwrite_overwrite isStorable_defaultFields.nodup_names h.nodup_names]
  refine ⟨hfirst, fun n => ⟨?_, hagain⟩⟩
  induction n with
  | zero => rw [resaves_succ rfl, resave_eq hfirst, save_save]
  | succ n ih => rw [resaves_succ ih, resave_eq hagain, save_save]

/-- A known setting is overwritten and a new one, with a nested value, comes last. -/
theorem nested_settings_persist :
    let fields : List (Text.Points × Json) :=
      [(.ofString "theme", .list [.real .nan, .object [], .text (.ofString "é😀")]),
        (.ofString placesName, .integer 4)]
    let loaded : List (Text.Points × Json) :=
      [(.ofString placesName, .integer 4), (.ofString productsName, .bool true),
        (.ofString zeroDivisionName, .text (.ofString "cannot divide by zero!")),
        (.ofString levelName, .text (.ofString "INFO")),
        (.ofString "theme", .list [.real .nan, .object [], .text (.ofString "é😀")])]
    empty.levelOverride = none ∧ (Json.object fields).IsStorable ∧
      (empty.save (.object fields)).lookup (.text allName) = .ok (.all ⟨textEntries loaded⟩) ∧
      ∀ n, (empty.save (.object fields)).resaves (n + 1) = .ok (empty.save (.object loaded)) ∧
        (empty.save (.object loaded)).lookup (.text allName) =
          .ok (.all ⟨textEntries loaded⟩) := by
  intro fields loaded
  have hstorable : (Json.object fields).IsStorable := by
    refine .object (by decide) ?_ ?_ <;> simp only [fields, List.forall_mem_cons]
    · exact ⟨⟨_, rfl⟩, ⟨_, rfl⟩, fun _ h => nomatch h⟩
    · refine ⟨.list ?_, .integer (by decide +kernel), fun _ h => nomatch h⟩
      simp only [List.forall_mem_cons]
      refine ⟨.real .nan, .object (by decide) ?_ ?_, .text _, ?_⟩ <;> exact fun _ h => nomatch h
  have hloaded : overwrite defaultFields fields = loaded := rfl
  have hpersist := @saved_settings_persist empty rfl _ hstorable
  rw [hloaded] at hpersist
  exact ⟨rfl, hstorable, hpersist⟩

end Store

end Reckoner.Settings
