import KeyRules.Text.Ranges

/-!
# KeyRules — blank characters

Words of an expression are set apart by blank characters, the ones with the Unicode property
`White_Space`. The property is narrower than "invisible": the separators U+001C to U+001F, the
zero width space and the byte order mark are no blanks and may stand inside a word.

* `isBlank` — the property, as a test on characters.
-/

namespace KeyRules.Text

/-- The code points of the property `White_Space`. -/
def blankRanges : List (Nat × Nat) :=
  [(0x09, 0x0D), (0x20, 0x20), (0x85, 0x85), (0xA0, 0xA0), (0x1680, 0x1680), (0x2000, 0x200A),
   (0x2028, 0x2029), (0x202F, 0x202F), (0x205F, 0x205F), (0x3000, 0x3000)]

/-- A character is blank when it has the property `White_Space`. -/
def isBlank (c : Char) : Bool :=
  inRanges blankRanges c

end KeyRules.Text
