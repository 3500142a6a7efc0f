/-!
# KeyRules — operators

The two ways to join conditions. An operator has a symbol, which stands between its operands in an
expression, and a literal key, which names it in a literal condition.

* `Operator.ofSymbol?_eq_some_iff` — reading a symbol accepts the two symbols only.
* `Operator.ofLiteralKey?_eq_some_iff` — the same for literal keys.
-/

namespace KeyRules

/-- How the operands of a group are joined. -/
inductive Operator where
  /-- Every operand must hold. -/
  | and
  /-- At least one operand must hold. -/
  | or
  deriving DecidableEq, Repr

namespace Operator

/-- The symbol of an operator in expressions. -/
def symbol : Operator → String
  | and => "&&"
  | or => "||"

/-- The operator with a given symbol. -/
def ofSymbol? (word : String) : Option Operator :=
  if word = "&&" then some and else if word = "||" then some or else none

/-- The key of an operator in literal conditions. -/
def literalKey : Operator → String
  | and => "$and"
  | or => "$or"

/-- The operator with a given literal key. -/
def ofLiteralKey? (key : String) : Option Operator :=
  if key = "$and" then some and else if key = "$or" then some or else none

/-- A word names an operator only if it is the symbol itself. -/
theorem ofSymbol?_eq_some_iff {word : String} {op : Operator} :
    ofSymbol? word = some op ↔ word = op.symbol := by
  cases op <;> grind [ofSymbol?, Operator.symbol]

/-- A field names an operator only if it is the literal key itself. -/
theorem ofLiteralKey?_eq_some_iff {key : String} {op : Operator} :
    ofLiteralKey? key = some op ↔ key = op.literalKey := by
  cases op <;> grind [ofLiteralKey?, literalKey]

end Operator

end KeyRules
