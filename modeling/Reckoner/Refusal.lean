/-!
# What cannot be worked with

A refusal is a cause outside the expression: settings that cannot be read or merged, a value where
it cannot serve, a text that should spell a number and does not. It belongs to one of a few kinds,
which is all that a caller can tell apart, and it has a message.
-/

namespace Reckoner

inductive Refusal where
  /-- The settings file is not UTF-8. -/
  | settingsNotText
  /-- The settings file holds an integer with too many digits. -/
  | settingsIntegerTooLong
  /-- The settings file, or an item of its list, is neither an object nor a row of pairs. -/
  | settingsNotPairs
  /-- An item of the list in the settings file has other than two parts. -/
  | settingsNotPair
  /-- A list or an object stands for the name of a setting. -/
  | nameNotScalar
  /-- The number of decimal places is text that spells no integer, or is not a number. -/
  | placesNotInteger
  /-- The number of decimal places is infinite. -/
  | placesInfinite
  /-- The number of decimal places is no number at all. -/
  | placesNotNumber
  /-- The log level names something that is text and no level. -/
  | levelNotKnown
  /-- The log level names something that is neither a number nor text. -/
  | levelNotNumber
  /-- A result is no number. -/
  | resultNotNumber
  /-- A position in a text does not fit into 64 bits. -/
  | positionOutOfRange
deriving DecidableEq, Repr

namespace Refusal

/-- The name of the kind. -/
def kind : Refusal → String
  | settingsNotText => "UnicodeDecodeError"
  | settingsIntegerTooLong | settingsNotPair | placesNotInteger | levelNotKnown
  | resultNotNumber => "ValueError"
  | settingsNotPairs | nameNotScalar | placesNotNumber | levelNotNumber => "TypeError"
  | placesInfinite | positionOutOfRange => "OverflowError"

/-- The cause in words. -/
def message : Refusal → String
  | settingsNotText => "The settings file is not UTF-8."
  | settingsIntegerTooLong => "The settings file holds an integer with too many digits."
  | settingsNotPairs => "The settings file holds neither an object nor a list of pairs."
  | settingsNotPair => "The settings file holds an item with other than two parts."
  | nameNotScalar => "A list or an object is no name of a setting."
  | placesNotInteger => "The number of decimal places is no integer."
  | placesInfinite => "The number of decimal places is infinite."
  | placesNotNumber => "The number of decimal places is no number."
  | levelNotKnown => "The log level is unknown."
  | levelNotNumber => "The log level is no level."
  | resultNotNumber => "The result is no number."
  | positionOutOfRange => "The position does not fit into 64 bits."

end Refusal

end Reckoner
