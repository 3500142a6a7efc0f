import KeyRules.Decimal.Layout
import KeyRules.Json.Basic
import KeyRules.Json.Strings

/-!
# KeyRules — JSON values to texts

A value has one written text, without blanks.

* `render` — the text of a value.
-/

namespace KeyRules.Json

/-- A value without parts as it is written. -/
def writeScalar : Scalar → List Char
  | .null => ['n', 'u', 'l', 'l']
  | .bool true => ['t', 'r', 'u', 'e']
  | .bool false => ['f', 'a', 'l', 's', 'e']
  | .number (.integer value) => (toString value).toList
  | .number (.float value) => (Decimal.render value).toList
  | .string text => writeString text

mutual

/-- A value as it is written. -/
def write : Json → List Char
  | scalar value => writeScalar value
  | array items => '[' :: (writeItems items ++ [']'])
  | object fields => '{' :: (writeFields fields ++ ['}'])

/-- The items of an array, set apart by commas. -/
def writeItems : List Json → List Char
  | [] => []
  | [item] => write item
  | item :: next :: items => write item ++ ',' :: writeItems (next :: items)

/-- The fields of an object, set apart by commas. -/
def writeFields : List (String × Json) → List Char
  | [] => []
  | [(name, value)] => writeString name ++ ':' :: write value
  | (name, value) :: next :: fields =>
    writeString name ++ ':' :: (write value ++ ',' :: writeFields (next :: fields))

end

/-- The text of a value. -/
def render (value : Json) : String :=
  String.ofList (write value)

end KeyRules.Json
