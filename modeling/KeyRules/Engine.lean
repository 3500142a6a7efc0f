import KeyRules.Condition.Holds
import KeyRules.Event
import KeyRules.Expression.Parse
import Std.Data.HashMap

/-!
# KeyRules — the engine

An engine compiles expressions and keeps what it compiled. Every compilation gives a tree of its
own, told apart from others by a number, even from those with the same condition. The cache binds
an expression to the tree of its first compilation, up to a fixed number of expressions; an
expression that does not compile is never kept. Calls come one after another: between the look into
the cache and the keeping of a new tree nobody else keeps one, and `keep` is ready for it all the
same.

* `Tree`, `Engine` — compiled conditions, and the state of an engine.
* `Engine.fetch` — the tree of an expression, through the cache.
* `Engine.check` — the value of an expression on a candidate, through the cache.
-/

namespace KeyRules

/-- A compiled condition. -/
structure Tree where
  /-- The number of the compilation that gave this tree. -/
  id : Nat
  /-- The condition. -/
  condition : Condition
  deriving DecidableEq, Repr

/-- What an engine has compiled so far. -/
structure Engine where
  /-- The trees that are kept, by expression. -/
  cache : Std.HashMap String Tree := {}
  /-- How many trees were made; the next one gets this number. -/
  issued : Nat := 0

/-- Work of an engine. -/
abbrev Work := StateT Engine Traced

namespace Engine

/-- How many expressions the cache can hold. -/
def capacity : Nat := 4096

/-- Reports an event. -/
def emit (e : Event) : Work Unit :=
  StateT.lift (Traced.emit e)

/-- Makes a tree with a number of its own. -/
def issue (c : Condition) : Work Tree :=
  modifyGet fun engine => (⟨engine.issued, c⟩, { engine with issued := engine.issued + 1 })

/-- Compiles an expression, the cache aside. -/
def compile (expression : String) : Work (Except Error Tree) :=
  match Condition.parse expression with
  | .ok c => .ok <$> issue c
  | .error e => pure (.error e)

/-- Keeps a tree for an expression, and gives the tree to use for it: the one that is kept already
if there is one, and else the new one, also when the cache is full and does not keep it. -/
def keep (expression : String) (tree : Tree) : Work Tree := do
  match (← get).cache[expression]? with
  | some earlier => return earlier
  | none =>
    if capacity ≤ (← get).cache.size then
      emit (.cacheFull expression)
      return tree
    else
      modify fun engine => { engine with cache := engine.cache.insert expression tree }
      return tree

/-- Compiles an expression that the cache does not have, and keeps the tree if there is one. -/
def compileAndKeep (expression : String) : Work (Except Error Tree) := do
  match ← compile expression with
  | .error e => return .error e
  | .ok tree =>
    emit (.cacheMiss expression tree.condition.size)
    return .ok (← keep expression tree)

/-- The tree of an expression: the one in the cache, or else a new one. -/
def fetch (expression : String) : Work (Except Error Tree) := do
  match (← get).cache[expression]? with
  | some tree =>
    emit (.cacheHit expression)
    return .ok tree
  | none => compileAndKeep expression

/-- Whether an expression holds for a candidate. -/
def check {γ : Type} [HasKeys γ] (expression : String) (candidate : γ) :
    Work (Except Error Bool) := do
  return (← fetch expression).map fun tree => tree.condition.holds candidate

/-- Empties the cache. Trees that are in use elsewhere stay as they are. -/
def clear : Work Unit :=
  modify fun engine => { engine with cache := {} }

/-- How many expressions the cache holds. -/
def cacheSize (engine : Engine) : Nat :=
  engine.cache.size

end Engine

end KeyRules
