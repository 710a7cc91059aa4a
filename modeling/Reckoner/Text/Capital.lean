/-!
# Capital letters

Names that are looked up without regard to case are compared in capitals. The names in question
consist of ASCII letters, so only the characters whose capitals are ASCII letters count: the small
ASCII letters, the dotless i, the long s, the sharp s and the ligatures of f and s.
-/

namespace Reckoner.Text

/-- The capitals of a character. -/
def capitals (c : Char) : List Char :=
  match c.toNat with
  | 0xdf => ['S', 'S']
  | 0x131 => ['I']
  | 0x17f => ['S']
  | 0xfb00 => ['F', 'F']
  | 0xfb01 => ['F', 'I']
  | 0xfb02 => ['F', 'L']
  | 0xfb03 => ['F', 'F', 'I']
  | 0xfb04 => ['F', 'F', 'L']
  | 0xfb05 => ['S', 'T']
  | 0xfb06 => ['S', 'T']
  | _ => [c.toUpper]

/-- The text in capitals. -/
def inCapitals (s : String) : String := String.ofList (s.toList.flatMap capitals)

end Reckoner.Text
