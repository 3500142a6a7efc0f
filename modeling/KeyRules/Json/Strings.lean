import KeyRules.Json.Fault

/-!
# KeyRules — strings of JSON texts

A string is written between double quotes. A quote, a backslash and a control character are
escaped, with a letter where there is one and with four hexadecimal digits otherwise; every other
character stands for itself. A reader also accepts the escapes it never writes: `\/`, and four
digits for any character, where two escapes that form a surrogate pair give one character.

* `escape` — a character as it is written.
* `OpenString` — a string that is being read, with its step for one character.
-/

namespace KeyRules.Json

/-- A digit below sixteen in lower-case hexadecimal. -/
def hexDigit (n : Nat) : Char :=
  Nat.digitChar n

/-- The value of a hexadecimal digit. -/
def hexValue? (c : Char) : Option Nat :=
  if '0' ≤ c ∧ c ≤ '9' then some (c.toNat - '0'.toNat)
  else if 'a' ≤ c ∧ c ≤ 'f' then some (c.toNat - 'a'.toNat + 10)
  else if 'A' ≤ c ∧ c ≤ 'F' then some (c.toNat - 'A'.toNat + 10)
  else none

/-- A character as it is written in a string. -/
def escape (c : Char) : List Char :=
  if c = '"' then ['\\', '"']
  else if c = '\\' then ['\\', '\\']
  else if c = '\x08' then ['\\', 'b']
  else if c = '\t' then ['\\', 't']
  else if c = '\n' then ['\\', 'n']
  else if c = '\x0c' then ['\\', 'f']
  else if c = '\r' then ['\\', 'r']
  else if c.toNat < 0x20 then
    ['\\', 'u', '0', '0', hexDigit (c.toNat / 16), hexDigit (c.toNat % 16)]
  else [c]

/-- A string as it is written, with its quotes. -/
def writeString (text : String) : List Char :=
  '"' :: (text.toList.flatMap escape ++ ['"'])

/-! ## Reading -/

/-- The character that a letter after a backslash stands for. -/
def unescape? (c : Char) : Option Char :=
  match c with
  | '"' => some '"'
  | '\\' => some '\\'
  | '/' => some '/'
  | 'b' => some '\x08'
  | 'f' => some '\x0c'
  | 'n' => some '\n'
  | 'r' => some '\r'
  | 't' => some '\t'
  | _ => none

/-- Where a reader stands inside a string. -/
inductive OpenString.Place where
  /-- Between two characters. -/
  | between
  /-- After a backslash. -/
  | backslash
  /-- In the four bytes of an escaped code unit, after a leading surrogate or not: the number of
  bytes seen, and the value of their digits as long as they are digits. -/
  | unit (lead : Option Nat) (bytes : Nat) (value : Option Nat)
  /-- After an escaped leading surrogate. -/
  | lead (unit : Nat)
  /-- After an escaped leading surrogate and a backslash. -/
  | leadBackslash (unit : Nat)
  deriving DecidableEq, Repr

/-- A string that is being read. -/
structure OpenString where
  /-- The characters so far, the last one first. -/
  reversed : List Char := []
  /-- Where the reader stands. -/
  place : OpenString.Place := .between
  deriving DecidableEq, Repr

namespace OpenString

variable {ρ : Type}

/-- The text of a string that is complete. -/
def text (s : OpenString) : String :=
  String.ofList s.reversed.reverse

/-- Whether a character closes the string. -/
def closes (s : OpenString) (c : Char) : Bool :=
  s.place = .between && c = '"'

/-- Adds a character. -/
def push (s : OpenString) (c : Char) : OpenString :=
  ⟨c :: s.reversed, .between⟩

/-- Whether a code unit is the leading half of a surrogate pair. -/
def isLead (unit : Nat) : Bool :=
  0xD800 ≤ unit && unit ≤ 0xDBFF

/-- Whether a code unit is the trailing half of a surrogate pair. -/
def isTrail (unit : Nat) : Bool :=
  0xDC00 ≤ unit && unit ≤ 0xDFFF

/-- The character of a surrogate pair. -/
def pairChar (lead trail : Nat) : Char :=
  Char.ofNat (0x10000 + (lead - 0xD800) * 0x400 + (trail - 0xDC00))

/-- Takes up an escaped code unit. -/
def pushUnit (s : OpenString) : Option Nat → Nat → Except (Fault ρ) OpenString
  | none, unit =>
    if isTrail unit then .error .loneSurrogate
    else if isLead unit then .ok { s with place := .lead unit }
    else .ok (s.push (Char.ofNat unit))
  | some lead, unit =>
    if isTrail unit then .ok (s.push (pairChar lead unit)) else .error .loneSurrogate

/-- Reads a character that does not close the string. A reader that is not strict takes any four
digits for a code unit and drops it. -/
def step (strict : Bool) (s : OpenString) (c : Char) : Except (Fault ρ) OpenString :=
  match s.place with
  | .between =>
    if c = '\\' then .ok { s with place := .backslash }
    else if c.toNat < 0x20 then .error .controlCharacter
    else .ok (s.push c)
  | .backslash =>
    if c = 'u' then .ok { s with place := .unit none 0 (some 0) }
    else match unescape? c with
      | some d => .ok (s.push d)
      | none => .error .invalidEscape
  | .unit lead bytes value =>
    let bytes := bytes + c.utf8Size
    let value := value.bind fun v => (hexValue? c).map (16 * v + ·)
    if bytes < 4 then .ok { s with place := .unit lead bytes value }
    else match value with
      | none => .error .invalidEscape
      | some unit => if strict then s.pushUnit lead unit else .ok { s with place := .between }
  | .lead unit =>
    if c = '\\' then .ok { s with place := .leadBackslash unit } else .error .brokenPair
  | .leadBackslash unit =>
    if c = 'u' then .ok { s with place := .unit (some unit) 0 (some 0) } else .error .brokenPair

end OpenString

end KeyRules.Json
