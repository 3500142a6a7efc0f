import KeyRules.RuleSet.Basic
import KeyRules.Proofs.Transparency

/-!
# KeyRules — what the rules of a set are

The rules of a set show what their sources give, whatever the engine has done before. From what is
seen of them follow all answers of the set: the rules that failed are those without a condition, and
the rules that match a candidate are those whose conditions hold, in the order of the names.

* `RuleSource.state` — what can be seen of the rule of a source.
* `RuleSet.states`, `RuleSet.conditions` — what can be seen of a set, and the conditions in it.
* `RuleSet.states_ofConfig` — what can be seen of the set of a configuration.
* `RuleSet.failures_eq`, `RuleSet.matching_eq` — the answers of a set.
-/

namespace KeyRules

/-- What can be seen of the rule of a source. -/
def RuleSource.state : RuleSource → Rule.State
  | expression text => .ofExpression text
  | literal c => .ofCondition c

/-- A rule shows what its source says, whichever engine makes it. -/
theorem RuleSource.state_toRule (engine : Engine) (source : RuleSource) :
    (source.toRule.run engine).value.1.state = source.state := by
  cases source with
  | expression text => exact Rule.state_build engine text
  | literal c => exact Rule.state_ofCondition engine c

namespace RuleSet

/-- What can be seen of the rules, by name. -/
def states (set : RuleSet) : List (String × Rule.State) :=
  set.rules.map fun entry => (entry.1, entry.2.state)

/-- The conditions of the rules that compiled, by name. -/
def conditions (set : RuleSet) : List (String × Condition) :=
  set.rules.filterMap fun entry => entry.2.condition?.map (entry.1, ·)

/-! ## From configurations -/

/-- A rule of a set has its name and shows what its source gives. -/
theorem state_member (engine : Engine) (entry : String × RuleSource) :
    let made := ((member entry).run engine).value.1
    (made.1, made.2.state) = (entry.1, entry.2.state) := by
  intro made
  have hmade : made = (entry.1, (entry.2.toRule.run engine).value.1) := by
    -- a rule that failed is reported, but it is a member like any other
    show ((member entry).run engine).value.1 = _
    unfold member
    rw [StateT.run_bind, Traced.value_bind]
    split <;> rfl
  rw [hmade, RuleSource.state_toRule]

/-- So do rules that are made one after another. -/
theorem states_members (engine : Engine) (entries : List (String × RuleSource)) :
    states ⟨((entries.mapM member).run engine).value.1⟩ =
      entries.map fun entry => (entry.1, entry.2.state) := by
  induction entries generalizing engine with
  | nil => rfl
  | cons entry entries ih =>
    rw [List.mapM_cons, StateT.run_bind, Traced.value_bind, StateT.run_bind, Traced.value_bind]
    exact List.cons_eq_cons.mpr ⟨state_member engine entry, ih _⟩

/-- The rules of a configuration show what their sources give, in the order of their names. -/
theorem states_ofConfig (engine : Engine) (config : Config) :
    (((ofConfig config).run engine).value.1).states =
      config.rules.toList.map fun entry => (entry.1, entry.2.state) :=
  states_members engine config.rules.toList

/-- The conditions of a set are those of the sources, in the order of the names. -/
theorem conditions_ofConfig (engine : Engine) (config : Config) :
    (((ofConfig config).run engine).value.1).conditions =
      config.rules.toList.filterMap fun entry => entry.2.state.condition?.map (entry.1, ·) := by
  have hconditions (set : RuleSet) : set.conditions =
      set.states.filterMap fun entry => entry.2.condition?.map (entry.1, ·) := by
    rw [conditions, states, List.filterMap_map]
    rfl
  rw [hconditions, states_ofConfig, List.filterMap_map]
  rfl

/-! ## Answers -/

/-- The rules that failed are those without a condition. -/
theorem failures_eq (set : RuleSet) :
    set.failures = (set.states.filter fun entry => entry.2.condition?.isNone).map fun entry =>
      (entry.1, entry.2.warnings) := by
  have hcompiled (rule : Rule) : (!rule.compiled) = rule.state.condition?.isNone := by
    cases h : rule.tree? <;> simp [Rule.compiled, Rule.state, Rule.condition?, h]
  simp only [failures, states, List.filter_map, List.map_map, hcompiled]
  rfl

theorem filterM_pure {α : Type} (p : α → Bool) (xs : List α) :
    xs.filterM (fun x => (pure (p x) : Traced Bool)) = pure (xs.filter p) := by
  -- what was found so far is kept in reverse
  have haux (xs : List α) (done : List α) :
      xs.filterAuxM (fun x => (pure (p x) : Traced Bool)) done =
        pure ((xs.filter p).reverse ++ done) := by
    induction xs generalizing done with
    | nil => rfl
    | cons x xs ih =>
      rw [List.filterAuxM, pure_bind, ih]
      cases hx : p x <;> simp [hx]
  rw [List.filterM, haux, pure_bind]
  simp

/-- The rules that match are those whose conditions hold, and finding them reports nothing. -/
theorem matching_eq {γ : Type} [HasKeys γ] (set : RuleSet) (candidate : γ) :
    set.matching candidate =
      pure ((set.conditions.filter fun entry => entry.2.holds candidate).map Prod.fst) := by
  -- only a rule that failed reports a test, and those are not tested
  have htest (entry : String × Rule) :
      (if entry.2.compiled then entry.2.test candidate else pure false) =
        (pure (entry.2.condition?.any (Condition.holds candidate)) : Traced Bool) := by
    cases h : entry.2.tree? <;> simp [Rule.compiled, Rule.test, Rule.condition?, h]
  have hnames : (set.rules.filter fun entry =>
      entry.2.condition?.any (Condition.holds candidate)).map Prod.fst =
      (set.conditions.filter fun entry => entry.2.holds candidate).map Prod.fst := by
    unfold conditions
    induction set.rules with
    | nil => rfl
    | cons entry rules ih =>
      cases hc : entry.2.condition? with
      | none => simp [hc, ih]
      | some c => cases hholds : c.holds candidate <;> simp [hc, hholds, ih]
  rw [matching]
  simp only [htest, filterM_pure, pure_bind, hnames]

end RuleSet

end KeyRules
