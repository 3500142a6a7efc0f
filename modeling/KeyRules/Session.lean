import KeyRules.Condition.Source
import KeyRules.RuleSet.Basic

/-!
# KeyRules — sessions

A session is one engine with rules and trees in named slots, driven by commands. It makes the
engine's behaviour over time observable: which calls share a tree, what the cache holds, and which
events are reported.

* `Command`, `Answer` — what can be asked, and what is answered.
* `Session.step` — one command.
* `Session.run` — a sequence of commands.
-/

namespace KeyRules

/-- A step of a session. -/
inductive Command where
  /-- Makes the rule of an expression. -/
  | build (slot expression : String)
  /-- Makes the rule of an expression through the cache. -/
  | cached (slot expression : String)
  /-- Makes the rule without an expression. -/
  | blank (slot : String)
  /-- Makes the rule of a condition. -/
  | adopt (slot : String) (source : Source)
  /-- Copies a rule, which goes on sharing its tree. -/
  | clone (model slot : String)
  /-- Gives a rule another expression. -/
  | update (slot expression : String)
  /-- Shows a rule. -/
  | state (slot : String)
  /-- Tests a rule on a candidate. -/
  | test (slot : String) (candidate : Json)
  /-- Takes the tree of an expression through the cache. -/
  | fetch (slot expression : String)
  /-- Checks an expression on a candidate through the cache. -/
  | check (expression : String) (candidate : Json)
  /-- Takes the trees of several expressions through the cache: a stem followed by a number. -/
  | fill (stem : String) (count : Nat)
  /-- Makes a rule set from a configuration text. -/
  | load (config : String)
  /-- Empties the cache. -/
  | clear
  /-- Compares two slots. -/
  | compare (left right : String)
  deriving Repr

/-- What a session answers. -/
inductive Answer where
  /-- A rule as it is after the step. -/
  | rule (rule : Rule)
  /-- The value of a test. -/
  | truth (value : Bool)
  /-- A tree. -/
  | tree (tree : Tree)
  /-- A rule set. -/
  | rules (set : RuleSet)
  /-- A number of successes. -/
  | count (n : Nat)
  /-- Whether two slots share one tree, and whether their conditions are equal. -/
  | comparison (shared equal : Bool)
  /-- Nothing to tell. -/
  | nothing
  /-- An expression or literal that failed. -/
  | error (e : Error)
  /-- The slot is empty. -/
  | missing (slot : String)
  deriving DecidableEq, Repr

/-- An engine with slots. -/
structure Session where
  /-- The engine. -/
  engine : Engine := {}
  /-- The rules by slot. -/
  rules : Std.HashMap String Rule := {}
  /-- The trees by slot. -/
  trees : Std.HashMap String Tree := {}

namespace Session

/-- Lets the engine work. -/
def work {α : Type} (s : Session) (w : Work α) : Traced (α × Session) := do
  let (value, engine) ← w.run s.engine
  return (value, { s with engine })

/-- Puts a rule into a slot. -/
def put (s : Session) (slot : String) (rule : Rule) : Answer × Session :=
  (.rule rule, { s with rules := s.rules.insert slot rule })

/-- Makes a rule and puts it into a slot. -/
def make (s : Session) (slot : String) (w : Work Rule) : Traced (Answer × Session) := do
  let (rule, s) ← s.work w
  return s.put slot rule

/-- What a slot holds for a comparison: its tree, or none for a rule without one. Trees go before
rules. -/
def treeAt? (s : Session) (slot : String) : Option (Option Tree) :=
  match s.trees[slot]?, s.rules[slot]? with
  | some tree, _ => some (some tree)
  | none, some rule => some rule.tree?
  | none, none => none

/-- Compares two slots. -/
def compare (s : Session) (left right : String) : Answer :=
  match s.treeAt? left, s.treeAt? right with
  | none, _ => .missing left
  | _, none => .missing right
  | some (some a), some (some b) => .comparison (a.id = b.id) (a.condition = b.condition)
  | _, _ => .nothing

/-- Takes the trees of a stem followed by each number below a bound, and counts the successes. -/
def fill (stem : String) (bound : Nat) : Work Nat :=
  (List.range bound).foldlM (fun successes i => do
    match ← Engine.fetch (stem ++ toString i) with
    | .ok _ => return successes + 1
    | .error _ => return successes) 0

/-- Carries out a command. -/
def step (s : Session) : Command → Traced (Answer × Session)
  | .build slot expression => s.make slot (Rule.build expression)
  | .cached slot expression => s.make slot (Rule.cached expression)
  | .blank slot => pure (s.put slot {})
  | .adopt slot source =>
    match source.condition with
    | .ok c => s.make slot (Rule.ofCondition c)
    | .error e => pure (.error e, s)
  | .clone model slot =>
    match s.rules[model]? with
    | some rule => pure (s.put slot rule)
    | none => pure (.missing model, s)
  | .update slot expression =>
    match s.rules[slot]? with
    | some _ => s.make slot (Rule.build expression)
    | none => pure (.missing slot, s)
  | .state slot =>
    match s.rules[slot]? with
    | some rule => pure (.rule rule, s)
    | none => pure (.missing slot, s)
  | .test slot candidate =>
    match s.rules[slot]? with
    | some rule => return (.truth (← rule.test candidate), s)
    | none => pure (.missing slot, s)
  | .fetch slot expression => do
    let (result, s) ← s.work (Engine.fetch expression)
    match result with
    | .ok tree => return (.tree tree, { s with trees := s.trees.insert slot tree })
    | .error e => return (.error e, s)
  | .check expression candidate => do
    let (result, s) ← s.work (Engine.check expression candidate)
    match result with
    | .ok value => return (.truth value, s)
    | .error e => return (.error e, s)
  | .fill stem count => do
    let (successes, s) ← s.work (fill stem count)
    return (.count successes, s)
  | .load config => do
    let (result, s) ← s.work (RuleSet.ofText config)
    match result with
    | .ok set => return (.rules set, s)
    | .error e => return (.error e, s)
  | .clear => do
    let ((), s) ← s.work Engine.clear
    return (.nothing, s)
  | .compare left right => pure (s.compare left right, s)

/-- Carries out commands in order and collects their answers. -/
def run (s : Session) : List Command → Traced (List Answer × Session)
  | [] => pure ([], s)
  | command :: commands => do
    let (answer, s) ← s.step command
    let (answers, s) ← s.run commands
    return (answer :: answers, s)

end Session

end KeyRules
