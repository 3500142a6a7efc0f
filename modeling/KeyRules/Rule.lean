import KeyRules.Condition.Text
import KeyRules.Engine

/-!
# KeyRules — rules

A rule is an expression together with what became of it: a tree, or the warning that tells why
there is none. Making a rule never fails; a rule without a tree holds for no candidate.

* `Rule.build`, `Rule.cached`, `Rule.ofCondition` — three ways to make a rule.
* `Rule.test` — whether a rule holds for a candidate.
-/

namespace KeyRules

/-- An expression and what became of it. The rule made by default has neither tree nor warning. -/
structure Rule where
  /-- The expression. -/
  expression : String := ""
  /-- The compiled condition, if there is one. -/
  tree? : Option Tree := none
  /-- Why there is none. -/
  warnings : List String := []
  deriving DecidableEq, Repr, Inhabited

namespace Rule

/-- Whether the rule has a tree. -/
def compiled (rule : Rule) : Bool :=
  rule.tree?.isSome

/-- The condition of the rule. -/
def condition? (rule : Rule) : Option Condition :=
  rule.tree?.map Tree.condition

/-- The rule of an expression, given the result of its compilation, which is reported. -/
def ofResult (expression : String) : Except Error Tree → Work Rule
  | .ok tree => do
    Engine.emit (.ruleCompiled expression tree.condition.size)
    return { expression, tree? := some tree }
  | .error e => do
    Engine.emit (.ruleFailed expression e)
    return { expression, warnings := [e.message] }

/-- Makes the rule of an expression, with a tree of its own. -/
def build (expression : String) : Work Rule := do
  ofResult expression (← Engine.compile expression)

/-- Makes the rule of an expression, with the tree that the cache has for it. -/
def cached (expression : String) : Work Rule := do
  ofResult expression (← Engine.fetch expression)

/-- Makes the rule of a condition; its expression is the text of the condition. -/
def ofCondition (c : Condition) : Work Rule := do
  return { expression := c.render, tree? := some (← Engine.issue c) }

/-- Whether the rule holds for a candidate. A rule without a tree does not, and says so. -/
def test {γ : Type} [HasKeys γ] (rule : Rule) (candidate : γ) : Traced Bool :=
  match rule.tree? with
  | some tree => pure (tree.condition.holds candidate)
  | none => do
    Traced.emit (.failedRuleTested rule.expression)
    return false

end Rule

end KeyRules
