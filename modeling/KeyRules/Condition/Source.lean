import KeyRules.Condition.Literal
import KeyRules.Expression.Parse

/-!
# KeyRules — sources of conditions

A condition is given as an expression, as a literal, or as it is.

* `Source.condition` — the condition that is meant, or why there is none.
-/

namespace KeyRules

/-- A condition in one of its three forms. -/
inductive Source where
  /-- An expression. -/
  | expression (text : String)
  /-- A literal, as a JSON text. -/
  | literal (text : String)
  /-- The condition itself. -/
  | given (c : Condition)
  deriving DecidableEq, Repr

/-- The condition that is meant. -/
def Source.condition : Source → Except Error Condition
  | expression text => Condition.parse text
  | literal text => Condition.ofLiteral text
  | given c => .ok c

end KeyRules
