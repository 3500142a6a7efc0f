import KeyRules.Expression.Store
import KeyRules.Expression.Token

/-!
# KeyRules — groups

A group is what stands between two parentheses once the groups inside it are done: a sequence of
items, each a word or a placeholder of a finished group. The items at even places are the operands
and the items at odd places, which must all be the same operator, join them. A single item stands
for itself.

* `Token.resolve` — the condition of an operand.
* `compile` — the condition of a group, or the first rule it breaks: the number of items, then
  the agreement of the joiners, then their being an operator.
-/

namespace KeyRules.Expression

/-- Work on the store that may fail. -/
abbrev Compile := StateT Store (Except Error)

namespace Token

/-- A token as an error text shows it. -/
def text : Token → String
  | word text => text
  | group _ => "(...)"
  | opener => "("
  | closer => ")"

/-- The operator that a token names. -/
def operator? : Token → Option Operator
  | word text => Operator.ofSymbol? text
  | _ => none

/-- The condition that an operand stands for: a word asks for a key, whatever it looks like. A
parenthesis is no operand. -/
def resolve : Token → Compile Condition
  | word text => pure (.key text)
  | group index => Store.take index
  | opener | closer => throw .unbalanced

end Token

/-! ## Operands and joiners -/

/-- The members of a list at the even places, counted from zero. -/
def evens {α : Type} : List α → List α
  | [] => []
  | [x] => [x]
  | x :: _ :: xs => x :: evens xs

/-- The members of a list at the odd places, counted from zero. -/
def odds {α : Type} : List α → List α
  | [] => []
  | [_] => []
  | _ :: y :: xs => y :: odds xs

/-- The operator that joins a group, given its first joiner and the others. -/
def joinedBy (joiner : Token) (others : List Token) : Except Error Operator :=
  match others.find? (· ≠ joiner) with
  | some other => .error (.mixedOperators joiner.text other.text)
  | none =>
    match joiner.operator? with
    | some op => .ok op
    | none => .error (.unknownOperator joiner.text)

/-- The condition of a group with the given items. -/
def compile : List Token → Compile Condition
  | [] => throw (.evenItems 0)
  | [item] => item.resolve
  | first :: joiner :: rest => do
    if rest.length % 2 = 0 then throw (.evenItems (rest.length + 2))
    let op ← joinedBy joiner (odds rest)
    return .group op (← (first :: evens rest).mapM Token.resolve)

end KeyRules.Expression
