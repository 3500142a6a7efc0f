import KeyRules.Error
import KeyRules.Text.Quoted

/-!
# KeyRules — events

What the library reports about its own work: use of the cache, compiled rules, and rules that
failed. An event has a level, a message and named fields.

* `Event` — the events.
* `Traced` — a value with the events that led to it; in a sequence the events follow one another.
-/

namespace KeyRules

/-- How much attention an event asks for. -/
inductive Level where
  /-- Of interest when every step is followed. -/
  | trace
  /-- Of interest when looking for a fault. -/
  | debug
  /-- Of interest always. -/
  | warn
  deriving DecidableEq, Repr

/-- The name of a level. -/
def Level.name : Level → String
  | trace => "TRACE"
  | debug => "DEBUG"
  | warn => "WARN"

/-- Something that happened. -/
inductive Event where
  /-- The cache had the expression. -/
  | cacheHit (expression : String)
  /-- An expression that the cache did not have was compiled. -/
  | cacheMiss (expression : String) (nodes : Nat)
  /-- A compiled expression was not kept, because the cache is full. -/
  | cacheFull (expression : String)
  /-- A rule was compiled. -/
  | ruleCompiled (expression : String) (nodes : Nat)
  /-- A rule did not compile. -/
  | ruleFailed (expression : String) (error : Error)
  /-- A rule of a rule set did not compile. -/
  | memberFailed (name expression : String) (warnings : List String)
  /-- A rule that did not compile was tested. -/
  | failedRuleTested (expression : String)
  deriving DecidableEq, Repr

/-- The value of a field. -/
inductive Event.Field where
  /-- A text. -/
  | text (value : String)
  /-- A number. -/
  | count (value : Nat)
  deriving DecidableEq, Repr

namespace Event

/-- The level of an event. -/
def level : Event → Level
  | cacheHit _ => .trace
  | cacheMiss _ _ | cacheFull _ | ruleCompiled _ _ | ruleFailed _ _ => .debug
  | memberFailed _ _ _ | failedRuleTested _ => .warn

/-- The message of an event. -/
def message : Event → String
  | cacheHit _ => "definition cache hit"
  | cacheMiss _ _ => "compiled expression into cache"
  | cacheFull _ => "definition cache full, not caching"
  | ruleCompiled _ _ => "compiled rule"
  | ruleFailed _ _ | memberFailed _ _ _ => "rule failed to compile"
  | failedRuleTested _ => "testing a rule that failed to compile"

/-- The fields of an event, besides its message. -/
def fields : Event → List (String × Field)
  | cacheHit expression | cacheFull expression | failedRuleTested expression =>
    [("expression", .text expression)]
  | cacheMiss expression nodes | ruleCompiled expression nodes =>
    [("expression", .text expression), ("nodes", .count nodes)]
  | ruleFailed expression error =>
    [("expression", .text expression), ("error", .text error.message)]
  | memberFailed name expression warnings =>
    [("rule", .text name), ("expression", .text expression),
     ("warnings", .text (Text.quoteList warnings))]

end Event

/-! ## Values with events -/

/-- A value, and the events on the way to it. -/
structure Traced (α : Type) where
  /-- The value. -/
  value : α
  /-- The events, in order. -/
  events : List Event := []
  deriving Repr

namespace Traced

/-- A value without events. -/
def quiet {α : Type} (value : α) : Traced α :=
  ⟨value, []⟩

/-- Continues with the value; the events of both parts follow one another. -/
def andThen {α β : Type} (x : Traced α) (f : α → Traced β) : Traced β :=
  let y := f x.value
  ⟨y.value, x.events ++ y.events⟩

instance : Monad Traced where
  pure := quiet
  bind := andThen

/-- Reports an event. -/
def emit (e : Event) : Traced Unit :=
  ⟨(), [e]⟩

instance : LawfulMonad Traced :=
  LawfulMonad.mk' Traced (fun x => by simp [Functor.map, andThen, quiet])
    (fun x f => by simp [bind, pure, andThen, quiet]) (fun x f g => by simp [bind, andThen])

theorem pure_def {α : Type} (value : α) : (pure value : Traced α) = ⟨value, []⟩ :=
  rfl

theorem value_bind {α β : Type} (x : Traced α) (f : α → Traced β) :
    (x >>= f).value = (f x.value).value :=
  rfl

/-- The events of two pieces of work follow one another. -/
theorem events_bind {α β : Type} (x : Traced α) (f : α → Traced β) :
    (x >>= f).events = x.events ++ (f x.value).events :=
  rfl

end Traced

end KeyRules
