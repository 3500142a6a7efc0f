/-!
# KeyRules — faults of JSON texts

A text is read from left to right, and the first fault met is the answer. Whoever takes up the
content may also refuse a value, for a reason of its own.

* `Fault` — the faults, over the reasons of the content.
* `Fault.message` — the wording of each.
-/

namespace KeyRules.Json

/-- What is wrong with a JSON text, at the first place where something is. -/
inductive Fault (ρ : Type) where
  /-- The text ends where a value is due. -/
  | endInValue
  /-- The text ends inside a string. -/
  | endInString
  /-- The text ends inside an array. -/
  | endInArray
  /-- The text ends inside an object. -/
  | endInObject
  /-- No value starts with the character found. -/
  | expectedValue
  /-- One of the words `null`, `true` and `false` is broken off. -/
  | expectedWord
  /-- A number lacks a digit, or has one after a leading zero. -/
  | invalidNumber
  /-- A number is too large for a double. -/
  | numberOutOfRange
  /-- A control character stands in a string. -/
  | controlCharacter
  /-- A backslash starts no escape. -/
  | invalidEscape
  /-- An escaped surrogate has no partner. -/
  | loneSurrogate
  /-- No second escape follows an escaped leading surrogate. -/
  | brokenPair
  /-- A comma stands before a closing bracket. -/
  | trailingComma
  /-- An item is followed neither by a comma nor by the end of its array. -/
  | expectedArrayEnd
  /-- A field is followed neither by a comma nor by the end of its object. -/
  | expectedObjectEnd
  /-- The name of a field is not a string. -/
  | keyNotString
  /-- No colon follows the name of a field. -/
  | expectedColon
  /-- Too many arrays and objects are open at once. -/
  | nestingTooDeep
  /-- More text follows where nothing may. -/
  | trailingCharacters
  /-- The content was refused. -/
  | refused (reason : ρ)
  deriving DecidableEq, Repr

/-- The text of a fault, given the texts of the reasons. -/
def Fault.message {ρ : Type} (describe : ρ → String) : Fault ρ → String
  | endInValue => "EOF while parsing a value"
  | endInString => "EOF while parsing a string"
  | endInArray => "EOF while parsing a list"
  | endInObject => "EOF while parsing an object"
  | expectedValue => "expected value"
  | expectedWord => "expected ident"
  | invalidNumber => "invalid number"
  | numberOutOfRange => "number out of range"
  | controlCharacter => "control character (\\u0000-\\u001F) found while parsing a string"
  | invalidEscape => "invalid escape"
  | loneSurrogate => "lone leading surrogate in hex escape"
  | brokenPair => "unexpected end of hex escape"
  | trailingComma => "trailing comma"
  | expectedArrayEnd => "expected `,` or `]`"
  | expectedObjectEnd => "expected `,` or `\x7d`"
  | keyNotString => "key must be a string"
  | expectedColon => "expected `:`"
  | nestingTooDeep => "recursion limit exceeded"
  | trailingCharacters => "trailing characters"
  | refused reason => describe reason

end KeyRules.Json
