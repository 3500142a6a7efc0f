import KeyRules.Proofs.Sessions

/-!
# KeyRules — the cache is not seen

Every entry of the cache is the tree of its own expression, after any commands. So an
expression that is taken through the cache gives the condition or the error that compiling it
gives, whatever was asked for before, and a rule made through the cache cannot be told from one
that was built, apart from the tree it shares.

* `Session.invariant` — what work keeps, whole sequences of commands keep.
* `Session.sound_after` — the cache is sound after any commands.
* `Rule.State` — what can be seen of a rule, with the states of expressions and conditions.
* `cache_transparent` — the answers of the cache, in every state that commands lead to.
-/

namespace KeyRules

/-! ## Sequences of commands -/

namespace Session

/-- What work keeps, and emptying the cache keeps, every sequence of commands keeps. -/
theorem invariant {P : Engine → Prop}
    (hclear : ∀ engine : Engine, P engine → P { engine with cache := {} })
    (hworks : ∀ {engine texts events next}, Engine.Works engine texts events next →
      P engine → P next)
    {s : Session} (h : P s.engine) (commands : List Command) : P (s.after commands).engine := by
  induction commands generalizing s with
  | nil => exact h
  | cons command commands ih =>
    rw [after_cons]
    apply ih
    -- no other command takes anything out of the cache
    by_cases hcommand : command = .clear
    · subst hcommand
      exact hclear _ h
    · exact hworks (works_step s hcommand) h

theorem sound_after (commands : List Command) : (after {} commands).engine.Sound :=
  invariant (fun _ _ => Engine.sound_of_empty rfl)
    (fun hworks h => h.works hworks)
    (Engine.sound_of_empty rfl) commands

end Session

/-! ## What can be seen of a rule -/

/-- A rule without the number of its tree. -/
structure Rule.State where
  expression : String
  condition? : Option Condition
  warnings : List String
  deriving DecidableEq, Repr

namespace Rule

/-- What can be seen of a rule. -/
def state (rule : Rule) : State :=
  ⟨rule.expression, rule.condition?, rule.warnings⟩

/-- The state of the rule of an expression. -/
def State.ofExpression (text : String) : State :=
  match Condition.parse text with
  | .ok c => ⟨text, some c, []⟩
  | .error e => ⟨text, none, [e.message]⟩

/-- The state of the rule of a condition. -/
def State.ofCondition (c : Condition) : State :=
  ⟨c.render, some c, []⟩

variable {engine : Engine} {text : String} {rule other : Rule}

/-- A rule counts as compiled when it has a condition. -/
theorem compiled_eq_isSome (rule : Rule) : rule.compiled = rule.condition?.isSome := by
  rw [compiled, condition?, Option.isSome_map]

theorem compiled_eq_of_state (h : rule.state = other.state) : rule.compiled = other.compiled := by
  have hcondition : rule.condition? = other.condition? := congrArg State.condition? h
  rw [compiled_eq_isSome, compiled_eq_isSome, hcondition]

/-- A test of a rule with a condition is the value of the condition. -/
theorem test_of_condition {γ : Type} [HasKeys γ] {c : Condition} (h : rule.condition? = some c)
    (candidate : γ) : rule.test candidate = pure (c.holds candidate) := by
  obtain ⟨tree, htree, rfl⟩ := Option.map_eq_some_iff.mp h
  rw [test, htree]

/-- A rule without a condition holds for no candidate, and says so. -/
theorem test_of_no_condition {γ : Type} [HasKeys γ] (h : rule.condition? = none)
    (candidate : γ) :
    rule.test candidate = ⟨false, [.failedRuleTested rule.expression]⟩ := by
  rw [test, Option.map_eq_none_iff.mp h]
  rfl

/-- A test depends only on what can be seen, and so does the event of a failed rule. -/
theorem test_eq_of_state {γ : Type} [HasKeys γ] (h : rule.state = other.state) (candidate : γ) :
    rule.test candidate = other.test candidate := by
  have hexpression : rule.expression = other.expression := congrArg State.expression h
  have hcondition : rule.condition? = other.condition? := congrArg State.condition? h
  cases hrule : rule.condition? with
  | some c =>
    rw [test_of_condition hrule, test_of_condition (hcondition.symm.trans hrule)]
  | none =>
    rw [test_of_no_condition hrule, test_of_no_condition (hcondition.symm.trans hrule),
      hexpression]

/-- A rule shows what its compilation gave. -/
theorem state_ofResult {result : Except Error Tree}
    (hresult : result.map Tree.condition = Condition.parse text) :
    ((ofResult text result).run engine).value.1.state = .ofExpression text := by
  rw [State.ofExpression, ← hresult]
  cases result <;> rfl

/-- A built rule shows what its expression gives, whichever engine built it; only the number of
its tree depends on the engine. -/
theorem state_build (engine : Engine) (text : String) :
    ((build text).run engine).value.1.state = .ofExpression text := by
  have hcompile : ((Engine.compile text).run engine).value.1.map Tree.condition =
      Condition.parse text := by
    cases hparse : Condition.parse text with
    | ok c => rw [Engine.run_compile_ok hparse]; rfl
    | error e => rw [Engine.run_compile_error hparse]; rfl
  exact state_ofResult hcompile

/-- The rule of an expression that compiles has the condition. -/
theorem build_of_ok {c : Condition} (h : Condition.parse text = .ok c) (engine : Engine) :
    let rule := ((build text).run engine).value.1
    rule.compiled = true ∧ rule.condition? = some c := by
  intro rule
  have hstate : rule.state = .ofExpression text := state_build engine text
  rw [State.ofExpression, h] at hstate
  have hcondition : rule.condition? = some c := congrArg State.condition? hstate
  refine ⟨?_, hcondition⟩
  rw [compiled_eq_isSome, hcondition, Option.isSome_some]

/-- The rule of an expression that does not compile has the text of the error as its warning. -/
theorem build_of_error {e : Error} (h : Condition.parse text = .error e) (engine : Engine) :
    let rule := ((build text).run engine).value.1
    rule.compiled = false ∧ rule.warnings = [e.message] := by
  intro rule
  have hstate : rule.state = .ofExpression text := state_build engine text
  rw [State.ofExpression, h] at hstate
  have hcondition : rule.condition? = none := congrArg State.condition? hstate
  refine ⟨?_, congrArg State.warnings hstate⟩
  rw [compiled_eq_isSome, hcondition, Option.isSome_none]

/-- A cached rule shows the same if the cache is sound. -/
theorem state_cached (h : engine.Sound) (text : String) :
    ((cached text).run engine).value.1.state = .ofExpression text :=
  state_ofResult (h.answer_eq (Engine.fetched_fetch engine text))

theorem state_ofCondition (engine : Engine) (c : Condition) :
    ((ofCondition c).run engine).value.1.state = .ofCondition c :=
  rfl

end Rule

/-! ## Whatever was asked for before -/

/-- In every state that commands lead to, the cache answers an expression with what compiling it
gives, a check gives the value of that condition, and a rule made through the cache cannot be told
from one built by any engine. -/
theorem cache_transparent (commands : List Command) (text : String) :
    let engine := (Session.after {} commands).engine
    ((Engine.fetch text).run engine).value.1.map Tree.condition = Condition.parse text ∧
    (∀ {γ : Type} [HasKeys γ] (candidate : γ),
      ((Engine.check text candidate).run engine).value.1 =
        (Condition.parse text).map fun c => c.holds candidate) ∧
    ∀ other : Engine,
      let rule := ((Rule.cached text).run engine).value.1
      let built := ((Rule.build text).run other).value.1
      rule.expression = built.expression ∧ rule.compiled = built.compiled ∧
        rule.warnings = built.warnings ∧ rule.condition? = built.condition? ∧
        ∀ {γ : Type} [HasKeys γ] (candidate : γ), rule.test candidate = built.test candidate := by
  intro engine
  have hsound : engine.Sound := Session.sound_after commands
  have hfetch : ((Engine.fetch text).run engine).value.1.map Tree.condition =
      Condition.parse text :=
    hsound.answer_eq (Engine.fetched_fetch engine text)
  refine ⟨hfetch, ?_, ?_⟩
  · intro γ _ candidate
    -- a check is the answer of the cache, evaluated on the candidate
    have hcheck : ((Engine.check text candidate).run engine).value.1 =
        ((Engine.fetch text).run engine).value.1.map fun tree => tree.condition.holds candidate :=
      rfl
    rw [hcheck, ← hfetch]
    cases ((Engine.fetch text).run engine).value.1 <;> rfl
  · intro other rule built
    -- both show what the expression gives, and a test sees no more than that
    have hstate : rule.state = built.state := by
      rw [Rule.state_cached hsound text, Rule.state_build other text]
    exact ⟨congrArg Rule.State.expression hstate, Rule.compiled_eq_of_state hstate,
      congrArg Rule.State.warnings hstate, congrArg Rule.State.condition? hstate,
      Rule.test_eq_of_state hstate⟩

end KeyRules
