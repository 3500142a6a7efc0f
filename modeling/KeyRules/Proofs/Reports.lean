import KeyRules.Proofs.Answers

/-!
# KeyRules — what making a rule set reports

Making the set of a configuration reports on its rules one after another, in the order of their
names. A literal is not reported at all, an expression that compiles once, and one that does not
compile twice: when the rule is made, and again, as a warning under its name, when the rule is found
to have failed. No other event is a warning, so the warnings tell what the set lists as failures.
Once the set is made, asking it reports nothing, because a rule that failed is never tested.

* `RuleSource.reports`, `RuleSource.lines` — the events of one rule, and how they are shown.
* `RuleSet.events_ofConfig` — the events of a set follow one another as its rules do.
* `RuleSet.warnings_ofConfig` — the warnings are the failures.
* `RuleSet.Query`, `RuleSet.ask` — what can be asked of a set, and the reply.
* `RuleSet.reports_ofConfig` — all that a set shows, while it is made and afterwards.
-/

namespace KeyRules

/-- The events of making a rule under a name. -/
def RuleSource.reports (name : String) : RuleSource → List Event
  | literal _ => []
  | expression text =>
    match Condition.parse text with
    | .ok c => [.ruleCompiled text c.size]
    | .error e => [.ruleFailed text e, .memberFailed name text [e.message]]

/-- An event as it is shown: its level, its message and its fields. -/
def Event.line (e : Event) : Level × String × List (String × Event.Field) :=
  (e.level, e.message, e.fields)

/-- What is shown while a rule is made under a name. -/
def RuleSource.lines (name : String) :
    RuleSource → List (Level × String × List (String × Event.Field))
  | literal _ => []
  | expression text =>
    match Condition.parse text with
    | .ok c => [(.debug, "compiled rule", [("expression", .text text), ("nodes", .count c.size)])]
    | .error e =>
      [(.debug, "rule failed to compile",
        [("expression", .text text), ("error", .text e.message)]),
       (.warn, "rule failed to compile",
        [("rule", .text name), ("expression", .text text),
         ("warnings", .text (Text.quoteList [e.message]))])]

/-- The events of a rule are shown as the lines of the rule. -/
theorem RuleSource.map_line_reports (name : String) (source : RuleSource) :
    (source.reports name).map Event.line = source.lines name := by
  cases source with
  | literal c => rfl
  | expression text =>
    rw [reports, lines]
    cases Condition.parse text <;> rfl

/-- The name and the warnings of a rule of a set that is reported to have failed. -/
def Event.failure? : Event → Option (String × List String)
  | memberFailed name _ warnings => some (name, warnings)
  | _ => none

/-! ## Making rules -/

namespace Rule

variable {engine : Engine} {text : String} {c : Condition} {e : Error}

/-- A rule that compiles is reported once, with the size of its condition. -/
theorem run_build_ok (hparse : Condition.parse text = .ok c) : (build text).run engine =
    ⟨({ expression := text, tree? := some ⟨engine.issued, c⟩ },
      { engine with issued := engine.issued + 1 }), [.ruleCompiled text c.size]⟩ := by
  rw [build, StateT.run_bind, Engine.run_compile_ok hparse, pure_bind]
  rfl

/-- A rule that does not compile is reported with its error. -/
theorem run_build_error (hparse : Condition.parse text = .error e) : (build text).run engine =
    ⟨({ expression := text, warnings := [e.message] }, engine), [.ruleFailed text e]⟩ := by
  rw [build, StateT.run_bind, Engine.run_compile_error hparse, pure_bind]
  rfl

end Rule

namespace RuleSet

/-- A rule of a set is reported when it is made, and once more if it failed. -/
theorem events_member (engine : Engine) (name : String) (source : RuleSource) :
    ((member (name, source)).run engine).events = source.reports name := by
  rw [member, StateT.run_bind, Traced.events_bind]
  cases source with
  | literal c => rfl
  | expression text =>
    rw [RuleSource.toRule, RuleSource.reports]
    -- only a rule without a tree is reported a second time
    cases hparse : Condition.parse text with
    | ok c =>
      rw [Rule.run_build_ok hparse]
      rfl
    | error e =>
      rw [Rule.run_build_error hparse]
      rfl

/-- Rules are reported one after another. -/
theorem events_members (engine : Engine) (entries : List (String × RuleSource)) :
    ((entries.mapM member).run engine).events =
      entries.flatMap fun entry => entry.2.reports entry.1 := by
  induction entries generalizing engine with
  | nil => rfl
  | cons entry entries ih =>
    obtain ⟨name, source⟩ := entry
    rw [List.mapM_cons, StateT.run_bind, Traced.events_bind, StateT.run_bind, Traced.events_bind,
      events_member, ih, List.flatMap_cons]
    exact congrArg _ (List.append_nil _)

/-- The rules of a set are made, and reported, in the order of the configuration. -/
theorem events_ofConfig (engine : Engine) (config : Config) :
    ((ofConfig config).run engine).events =
      config.rules.toList.flatMap fun entry => entry.2.reports entry.1 := by
  rw [ofConfig, StateT.run_bind, Traced.events_bind, events_members]
  exact List.append_nil _

/-! ## Warnings -/

/-- A rule is warned of just when it has no condition. -/
theorem warnings_member (name : String) (source : RuleSource) :
    ((source.reports name).filter fun e => e.level = .warn).map Event.failure? =
      (([(name, source.state)].filter fun entry => entry.2.condition?.isNone).map fun entry =>
        some (entry.1, entry.2.warnings)) := by
  cases source with
  | literal c => rfl
  | expression text =>
    rw [RuleSource.reports, RuleSource.state, Rule.State.ofExpression]
    cases Condition.parse text <;> rfl

/-- So it is with all rules, one after another. -/
theorem warnings_members (entries : List (String × RuleSource)) :
    ((entries.flatMap fun entry => entry.2.reports entry.1).filter fun e => e.level = .warn).map
        Event.failure? =
      ((entries.map fun entry => (entry.1, entry.2.state)).filter fun entry =>
        entry.2.condition?.isNone).map fun entry => some (entry.1, entry.2.warnings) := by
  induction entries with
  | nil => rfl
  | cons entry entries ih =>
    rw [List.flatMap_cons, List.filter_append, List.map_append, ih, warnings_member,
      ← List.map_append, ← List.filter_append]
    rfl

/-- The warnings are the failures, in the same order. -/
theorem warnings_ofConfig (engine : Engine) (config : Config) :
    let made := (ofConfig config).run engine
    (made.events.filter fun e => e.level = .warn).map Event.failure? =
      made.value.1.failures.map some := by
  intro made
  rw [events_ofConfig, warnings_members, failures_eq, states_ofConfig, List.map_map]
  rfl

/-! ## Questions -/

/-- A question to a rule set. -/
inductive Query : Type 1 where
  /-- The rule with a name. -/
  | get (name : String)
  /-- The rules that failed. -/
  | failures
  /-- The rules that hold for a candidate, which may be of any type. -/
  | matching {γ : Type} [HasKeys γ] (candidate : γ)

/-- What a rule set answers. -/
inductive Reply where
  /-- A rule, if there is one. -/
  | rule (rule : Option Rule)
  /-- Names with warnings. -/
  | failures (failures : List (String × List String))
  /-- Names. -/
  | names (names : List String)

/-- Asks a rule set. -/
def ask (set : RuleSet) : Query → Traced Reply
  | .get name => pure (.rule (set.get? name))
  | .failures => pure (.failures set.failures)
  | @Query.matching _ _ candidate => .names <$> set.matching candidate

/-- No question to a set reports anything. -/
theorem events_ask (set : RuleSet) (query : Query) : (set.ask query).events = [] := by
  cases query with
  | get name => rfl
  | failures => rfl
  | matching candidate =>
    rw [ask, matching_eq]
    rfl

/-- Nor does any sequence of questions. -/
theorem events_askAll (set : RuleSet) (queries : List Query) :
    (queries.mapM set.ask).events = [] := by
  induction queries with
  | nil => rfl
  | cons query queries ih =>
    rw [List.mapM_cons, Traced.events_bind, Traced.events_bind, events_ask, ih]
    rfl

/-- What is shown while the set of a configuration is made is what its rules show, in the order of
the bytes of their names. The warnings among the events are the failures that the set lists, one for
one and in order, and no sequence of questions to the set reports anything more. -/
theorem reports_ofConfig (config : Config) (engine : Engine) :
    let made := (ofConfig config).run engine
    let set := made.value.1
    Text.Increasing (config.rules.toList.map Prod.fst) ∧
    made.events.map Event.line =
      (config.rules.toList.flatMap fun entry => entry.2.lines entry.1) ∧
    (made.events.filter fun e => e.level = .warn).map Event.failure? = set.failures.map some ∧
    ∀ queries : List Query, (queries.mapM set.ask).events = [] := by
  intro made set
  have hnames : Ascending config.rules.toList := Std.TreeMap.ordered_keys_toList
  refine ⟨hnames.increasing, ?_, warnings_ofConfig engine config, events_askAll set⟩
  rw [events_ofConfig, List.map_flatMap]
  simp only [RuleSource.map_line_reports]

end RuleSet

end KeyRules
