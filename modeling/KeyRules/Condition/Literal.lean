import KeyRules.Condition.Basic
import KeyRules.Error
import KeyRules.Json.Build
import KeyRules.Json.Write

/-!
# KeyRules — literal conditions

A condition can be given as a JSON value instead of an expression: a key is a string, and a group
is an object with one field, named for the operator, that holds the operands. Reading accepts one
more spelling: an array in an array is a group joined by "and". A group without operands is no
literal.

* `Condition.toJson`, `Condition.ofJson` — between conditions and JSON values.
* `Condition.toLiteral`, `Condition.ofLiteral` — between conditions and JSON texts.
-/

namespace KeyRules

/-- Why a JSON value is no literal condition. -/
inductive LiteralFault where
  /-- The value, or one inside it, has none of the accepted forms. -/
  | noCondition
  /-- The value is a group without operands. -/
  | noOperand (op : Operator)
  deriving DecidableEq, Repr

/-- The text of a refusal. -/
def LiteralFault.message : LiteralFault → String
  | noCondition => "data did not match any variant of untagged enum Literal"
  | noOperand op => (Error.noOperand op).message

namespace Condition

/-! ## Writing -/

mutual

/-- The literal of a condition. -/
def toJson : Condition → Json
  | key name => .string name
  | group op operands => .object [(op.literalKey, .array (toJsonAll operands))]

/-- The literals of several conditions. -/
def toJsonAll : List Condition → List Json
  | [] => []
  | c :: cs => c.toJson :: toJsonAll cs

end

/-- The literal of a condition as a JSON text. -/
def toLiteral (c : Condition) : String :=
  c.toJson.render

/-! ## Reading -/

/-- A group, which must have operands. -/
def groupOf? (op : Operator) : List Condition → Option Condition
  | [] => none
  | operands => some (group op operands)

mutual

/-- The condition that a value is a literal of. -/
def ofJson? : Json → Option Condition
  | .scalar (.string name) => some (key name)
  | .object [(name, .array items)] =>
    match Operator.ofLiteralKey? name, ofJsonAll? items with
    | some op, some operands => groupOf? op operands
    | _, _ => none
  | .array [.array items] =>
    match ofJsonAll? items with
    | some operands => groupOf? .and operands
    | none => none
  | _ => none

/-- The conditions that several values are literals of. -/
def ofJsonAll? : List Json → Option (List Condition)
  | [] => some []
  | item :: items =>
    match ofJson? item, ofJsonAll? items with
    | some c, some cs => some (c :: cs)
    | _, _ => none

end

/-- The operator of a value that has the form of a group without operands. -/
def emptyGroup? : Json → Option Operator
  | .object [(name, .array [])] => Operator.ofLiteralKey? name
  | .array [.array []] => some .and
  | _ => none

/-- The condition that a value is a literal of, or why it is none. -/
def ofJson (value : Json) : Except LiteralFault Condition :=
  match ofJson? value, emptyGroup? value with
  | some c, _ => .ok c
  | none, some op => .error (.noOperand op)
  | none, none => .error .noCondition

/-- Reads a literal from a JSON text: first the value, then the condition, then the end of the
text. -/
def readLiteral (text : String) : Except (Json.Fault LiteralFault) Condition := do
  let (value, clean) ← Json.parse Json.nestingLimit text
  let c ← (ofJson value).mapError .refused
  Json.wholly c clean

/-- The condition that a JSON text is a literal of. -/
def ofLiteral (text : String) : Except Error Condition :=
  (readLiteral text).mapError fun fault => .unreadable (fault.message LiteralFault.message)

end Condition

end KeyRules
