import KeyRules.Text.SpelledOut

/-!
# KeyRules — quoted text

Messages show a piece of user text between double quotes, on one line and with every invisible
character spelled out, so that it can be told apart from the message around it.

* `quote` — the quoted form of a text.
* `quoteList` — the quoted forms of several texts, between brackets.
-/

namespace KeyRules.Text

/-- The code point of a character in lower-case hexadecimal. -/
def hexCode (c : Char) : String :=
  String.ofList (Nat.toDigits 16 c.toNat)

/-- A character as it stands between the quotes. -/
def quoteChar (c : Char) : String :=
  match c with
  | '\x00' => "\\0"
  | '\t' => "\\t"
  | '\n' => "\\n"
  | '\r' => "\\r"
  | '"' => "\\\""
  | '\\' => "\\\\"
  | c => if isSpelledOut c then "\\u\x7b" ++ hexCode c ++ "\x7d" else String.singleton c

/-- A text between double quotes, with its quotes and backslashes escaped. -/
def quote (text : String) : String :=
  "\"" ++ String.join (text.toList.map quoteChar) ++ "\""

/-- Quoted texts between brackets, set apart by commas. -/
def quoteList (texts : List String) : String :=
  "[" ++ ", ".intercalate (texts.map quote) ++ "]"

end KeyRules.Text
