import KeyRules.Rule
import KeyRules.RuleSet.Config

/-!
# KeyRules — rule sets

A rule set holds the rules of a configuration under their names. A rule that does not compile
stays in the set with its warning, holds for no candidate, and does not touch the others. Names
are ordered by their code points.

* `RuleSet.ofConfig`, `RuleSet.ofText` — rule sets from configurations and their texts.
* `RuleSet.get?`, `RuleSet.failures`, `RuleSet.matching` — what can be asked of one.
-/

namespace KeyRules

/-- Rules by name, in the order of the names. -/
structure RuleSet where
  /-- The rules with their names. -/
  rules : List (String × Rule) := []
  deriving DecidableEq, Repr

/-- Makes the rule of a source. -/
def RuleSource.toRule : RuleSource → Work Rule
  | expression text => Rule.build text
  | literal c => Rule.ofCondition c

namespace RuleSet

/-- Makes a rule of a set; one that failed is reported under its name. -/
def member (entry : String × RuleSource) : Work (String × Rule) := do
  let rule ← entry.2.toRule
  if !rule.compiled then
    Engine.emit (.memberFailed entry.1 rule.expression rule.warnings)
  return (entry.1, rule)

/-- Makes the rules of a configuration, in the order of their names. -/
def ofConfig (config : Config) : Work RuleSet := do
  return ⟨← config.rules.toList.mapM member⟩

/-- Makes the rule set of a JSON text. -/
def ofText (text : String) : Work (Except Error RuleSet) :=
  match Config.ofText text with
  | .ok config => .ok <$> ofConfig config
  | .error e => pure (.error e)

/-- The rule with a given name. -/
def get? (set : RuleSet) (name : String) : Option Rule :=
  set.rules.lookup name

/-- The number of rules. -/
def size (set : RuleSet) : Nat :=
  set.rules.length

/-- Whether there are no rules. -/
def isEmpty (set : RuleSet) : Bool :=
  set.rules.isEmpty

/-- The rules that did not compile, with their warnings. -/
def failures (set : RuleSet) : List (String × List String) :=
  (set.rules.filter fun (_, rule) => !rule.compiled).map fun (name, rule) =>
    (name, rule.warnings)

/-- The names of the rules that compiled and hold for a candidate. -/
def matching {γ : Type} [HasKeys γ] (set : RuleSet) (candidate : γ) : Traced (List String) := do
  let holding ← set.rules.filterM fun (_, rule) =>
    if rule.compiled then rule.test candidate else pure false
  return holding.map Prod.fst

end RuleSet

end KeyRules
