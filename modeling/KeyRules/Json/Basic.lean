/-!
# KeyRules — JSON values

* `Json` — a value as its text spells it out. The fields of an object stand in the order of the
  text, and a name that is written twice is there twice, because how often a name occurs decides
  what an object can be read as.
-/

namespace KeyRules

/-- A number of a JSON text. -/
inductive Json.Number where
  /-- A number written without fraction and exponent, within the range of machine integers. -/
  | integer (value : Int)
  /-- Any other number, rounded to a double. -/
  | float (value : Float)
  deriving Repr, Inhabited

/-- A value without parts. -/
inductive Json.Scalar where
  /-- The word `null`. -/
  | null
  /-- One of the words `true` and `false`. -/
  | bool (value : Bool)
  /-- A number. -/
  | number (value : Json.Number)
  /-- A string. -/
  | string (value : String)
  deriving Repr, Inhabited

/-- A JSON value. -/
inductive Json where
  /-- A value without parts. -/
  | scalar (value : Json.Scalar)
  /-- The items of an array, in order. -/
  | array (items : List Json)
  /-- The fields of an object, in the order of the text. -/
  | object (fields : List (String × Json))
  deriving Repr, Inhabited

namespace Json

/-- The string value with a given text. -/
abbrev string (text : String) : Json :=
  .scalar (.string text)

end Json

end KeyRules
