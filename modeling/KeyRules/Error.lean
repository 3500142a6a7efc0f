import KeyRules.Condition.Operator

/-!
# KeyRules — errors

What can keep an expression from compiling or a text from being loaded.

* `Error` — the causes.
* `Error.message` — the wording of each.
-/

namespace KeyRules

/-- A reason why no condition could be made. -/
inductive Error where
  /-- A parenthesis has no partner. -/
  | unbalanced
  /-- A group holds an even number of items, so that they cannot alternate with operators. -/
  | evenItems (count : Nat)
  /-- A group is joined by two different items in operator position. -/
  | mixedOperators (expected found : String)
  /-- The item in operator position is no operator. -/
  | unknownOperator (word : String)
  /-- A group was asked for that is not there, or no longer. -/
  | missingGroup (index : Nat)
  /-- An operator stands without operands. -/
  | noOperand (op : Operator)
  /-- A text could not be loaded, for the reason given. -/
  | unreadable (reason : String)
  deriving DecidableEq, Repr

/-- The text of an error. -/
def Error.message : Error → String
  | unbalanced => "Unbalanced parentheses"
  | evenItems count =>
    "There must be an odd number of tokens, e.g. X || Y. Found " ++ toString count
  | mixedOperators expected found =>
    "Boolean operators must be the same in group: expected '" ++ expected ++ "', found '" ++
      found ++ "'"
  | unknownOperator word => "Unknown boolean operator '" ++ word ++ "'"
  | missingGroup index => "Group reference " ++ toString index ++ " is not available"
  | noOperand op => "Operator '" ++ op.literalKey ++ "' needs at least one operand"
  | unreadable reason => "Deserialization error: " ++ reason

end KeyRules
