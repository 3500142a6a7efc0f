import KeyRules.Proofs.Fetching
import KeyRules.Session

/-!
# KeyRules — what commands ask for

Of the commands of a session only a few go through the cache, each for expressions that can be read
off the command, and a single one empties it. All others leave the cache as it is, whatever rules
they make, change, copy or test. So what a sequence of commands does to the cache depends only on
the expressions asked for.

* `Command.texts` — the expressions that a command takes through the cache.
* `works_step` — a command that does not empty the cache asks for its expressions.
* `Session.after` — a session after some commands.
* `works_run` — commands that do not empty the cache ask for their expressions in order.
-/

namespace KeyRules

open Engine (Asks Works)

/-- The expressions that a command takes through the cache, in order. -/
def Command.texts : Command → List String
  | .cached _ expression | .fetch _ expression | .check expression _ => [expression]
  | .fill stem count => (List.range count).map fun i => stem ++ toString i
  | _ => []

/-! ## Rules -/

/-- Making a rule of a result asks for nothing more. -/
theorem asks_ofResult (expression : String) (result : Except Error Tree) :
    Asks (Rule.ofResult expression result) [] := by
  cases result with
  | ok tree => exact (Engine.asks_emit rfl).bind_silent fun _ => .pure _
  | error e => exact (Engine.asks_emit rfl).bind_silent fun _ => .pure _

/-- Building a rule goes past the cache. -/
theorem asks_build (expression : String) : Asks (Rule.build expression) [] :=
  (Engine.asks_compile expression).bind_silent fun result => asks_ofResult expression result

/-- A cached rule asks for its own expression. -/
theorem asks_cached (expression : String) : Asks (Rule.cached expression) [expression] :=
  (Engine.asks_fetch expression).bind_silent fun result => asks_ofResult expression result

theorem asks_ofCondition (c : Condition) : Asks (Rule.ofCondition c) [] :=
  (Engine.asks_issue c).bind_silent fun _ => .pure _

/-! ## Rule sets -/

/-- The rule of a source goes past the cache, whichever kind of source it is. -/
theorem asks_toRule (source : RuleSource) : Asks source.toRule [] := by
  cases source with
  | expression text => exact asks_build text
  | literal c => exact asks_ofCondition c

theorem asks_member (entry : String × RuleSource) : Asks (RuleSet.member entry) [] := by
  refine (asks_toRule entry.2).bind_silent fun rule => ?_
  split
  · exact (Engine.asks_emit rfl).bind_silent fun _ => .pure _
  · exact .pure _

/-- So does the set of a configuration, with all of its rules. -/
theorem asks_ofConfig (config : Config) : Asks (RuleSet.ofConfig config) [] :=
  (Asks.mapM_silent asks_member config.rules.toList).bind_silent fun _ => .pure _

theorem asks_ofText (text : String) : Asks (RuleSet.ofText text) [] := by
  unfold RuleSet.ofText
  split
  · exact (asks_ofConfig _).map _
  · exact .pure _

/-! ## Commands -/

namespace Session

/-- Filling the cache asks for the numbered expressions in order. -/
theorem asks_fill (stem : String) (count : Nat) :
    Asks (Session.fill stem count) ((List.range count).map fun i => stem ++ toString i) := by
  rw [List.map_eq_flatMap]
  refine Asks.foldlM (fun successes i => ?_) _ _
  refine (Engine.asks_fetch (stem ++ toString i)).bind_silent fun result => ?_
  split
  · exact .pure _
  · exact .pure _

variable {command : Command} {commands : List Command} {α : Type}

/-- Work of the engine, and then something that lets the engine be. -/
theorem works_andThen {w : Work α} {texts : List String} (h : Asks w texts) (s : Session)
    {f : α × Session → Traced (Answer × Session)}
    (hf : ∀ p, (f p).events = [] ∧ (f p).value.2.engine = p.2.engine) :
    Works s.engine texts (s.work w >>= f).events (s.work w >>= f).value.2.engine := by
  have hevents : (s.work w >>= f).events = (w.run s.engine).events := by
    simp [work, Traced.events_bind, Traced.pure_def, hf]
  rw [hevents, Traced.value_bind, (hf _).2]
  exact h s.engine

/-- Storing a rule in a slot does what making the rule does. -/
theorem works_make {w : Work Rule} {texts : List String} (h : Asks w texts) (s : Session)
    (slot : String) :
    Works s.engine texts (s.make slot w).events (s.make slot w).value.2.engine :=
  works_andThen h s fun _ => ⟨rfl, rfl⟩

/-- A command that does not empty the cache asks for its expressions. Besides that it takes
numbers for trees of its own and reports, and the engine sees nothing else of it. -/
theorem works_step (s : Session) (hclear : command ≠ .clear) :
    Works s.engine command.texts (s.step command).events (s.step command).value.2.engine := by
  -- Where a command needs a rule that is not there, it does no work at all.
  cases command with
  | build slot expression => exact works_make (asks_build expression) s slot
  | cached slot expression => exact works_make (asks_cached expression) s slot
  | blank slot => exact .done _
  | adopt slot source =>
    simp only [step]
    split
    · exact works_make (asks_ofCondition _) s slot
    · exact .done _
  | clone model slot =>
    simp only [step]
    split <;> exact .done _
  | update slot expression =>
    simp only [step]
    split
    · exact works_make (asks_build expression) s slot
    · exact .done _
  | state slot =>
    simp only [step]
    split <;> exact .done _
  | test slot candidate =>
    simp only [step]
    split
    · rename_i rule _
      unfold Rule.test
      split
      · exact .done _
      · exact .emit rfl (.done _)
    · exact .done _
  | fetch slot expression =>
    refine works_andThen (Engine.asks_fetch expression) s ?_
    rintro ⟨_ | _, _⟩ <;> exact ⟨rfl, rfl⟩
  | check expression candidate =>
    refine works_andThen (Engine.asks_check expression candidate) s ?_
    rintro ⟨_ | _, _⟩ <;> exact ⟨rfl, rfl⟩
  | fill stem count => exact works_andThen (asks_fill stem count) s fun _ => ⟨rfl, rfl⟩
  | load config =>
    refine works_andThen (asks_ofText config) s ?_
    rintro ⟨_ | _, _⟩ <;> exact ⟨rfl, rfl⟩
  | clear => exact absurd rfl hclear
  | compare left right => exact .done _

/-! ## Sequences of commands -/

/-- A session after some commands. -/
def after (s : Session) (commands : List Command) : Session :=
  (s.run commands).value.2

theorem after_cons (s : Session) (command : Command) (commands : List Command) :
    s.after (command :: commands) = (s.step command).value.2.after commands := rfl

theorem events_run_cons (s : Session) (command : Command) (commands : List Command) :
    (s.run (command :: commands)).events =
      (s.step command).events ++ ((s.step command).value.2.run commands).events := by
  simp [run, Traced.events_bind, Traced.pure_def]

/-- Commands that do not empty the cache ask for their expressions in order. -/
theorem works_run (s : Session) (hclear : .clear ∉ commands) :
    Works s.engine (commands.flatMap Command.texts) (s.run commands).events
      (s.after commands).engine := by
  induction commands generalizing s with
  | nil => exact .done _
  | cons command commands ih =>
    rw [List.mem_cons, not_or] at hclear
    rw [List.flatMap_cons, events_run_cons, after_cons]
    exact (works_step s (Ne.symm hclear.1)).trans (ih _ hclear.2)

end Session

end KeyRules
