import KeyRules.Condition.Basic

/-!
# KeyRules — conditions as expression text

Every condition has one expression text: a key is its own name, a group is its operands with the
operator between them, and an operand that is itself a group stands in parentheses. Nothing is
quoted, so the text of a key with blanks or parentheses in it reads differently.

* `Condition.render` — the text.
-/

namespace KeyRules.Condition

mutual

/-- The operands of a group with their operator between them. -/
def renderOperands (op : Operator) : List Condition → String
  | [] => ""
  | [c] => renderOperand c
  | c :: d :: cs => renderOperand c ++ " " ++ op.symbol ++ " " ++ renderOperands op (d :: cs)

/-- An operand as it stands in a group, in parentheses when it is a group itself. -/
def renderOperand : Condition → String
  | key name => name
  | group op operands => "(" ++ renderOperands op operands ++ ")"

end

/-- The expression text of a condition. -/
def render : Condition → String
  | key name => name
  | group op operands => renderOperands op operands

instance : ToString Condition := ⟨render⟩

end KeyRules.Condition
