import KeyRules.Proofs.Balanced
import KeyRules.Proofs.ByteOrder
import KeyRules.Proofs.Reload

/-!
# KeyRules — what a rule set answers

The set of a configuration has a rule for each of its names, in the state that building the rule
alone gives, and its two lists divide the names: an expression that does not compile is listed with
its error, and of the other rules those are listed that hold. Both lists stand in the order of the
bytes of the names. What is answered for a name depends on the source of this name only, so that a
rule that fails touches no other one.

* `RuleSet.state_get?` — what can be seen of the rule with a name.
* `RuleSet.Answers` — what a set answers, said by the sources of its configuration.
* `RuleSet.answers_ofConfig` — the set of every configuration answers so.
-/

namespace KeyRules

/-! ## Entries by name -/

/-- The entry of a name is the only one with this name. -/
theorem lookup_eq_some_iff_mem {α : Type} {entries : List (String × α)} (h : Ascending entries)
    {name : String} {value : α} :
    entries.lookup name = some value ↔ (name, value) ∈ entries := by
  induction entries with
  | nil => simp
  | cons entry entries ih =>
    obtain ⟨first, found⟩ := entry
    obtain ⟨hfirst, hrest⟩ := List.pairwise_cons.mp h
    by_cases hname : name = first
    · -- a later entry with the name of the first one would not stand after it
      subst hname
      have hlater : (name, value) ∉ entries := fun hmem => by
        simpa [Std.compare_self] using hfirst _ hmem
      simp [hlater, eq_comm]
    · rw [List.lookup_cons, beq_eq_false_iff_ne.mpr hname]
      simpa [hname] using ih hrest

/-- Entries that ascend by their names ascend by the bytes of their names. -/
theorem Ascending.increasing {α : Type} {entries : List (String × α)} (h : Ascending entries) :
    Text.Increasing (entries.map Prod.fst) :=
  Text.increasing_of_compare (List.pairwise_map.mpr h)

/-- The condition of a source is the one that is given or the one that its text compiles to. -/
theorem RuleSource.condition?_state {source : RuleSource} {c : Condition} :
    source.state.condition? = some c ↔
      source = .literal c ∨ ∃ text, source = .expression text ∧ Condition.parse text = .ok c := by
  cases source with
  | expression text =>
    rw [RuleSource.state, Rule.State.ofExpression]
    cases hparse : Condition.parse text <;> simp [hparse]
  | literal d => simp [RuleSource.state, Rule.State.ofCondition]

/-- A source fails only as a text that does not compile, and the warning is the text of the error.
-/
theorem RuleSource.failed_iff {source : RuleSource} {warnings : List String} :
    source.state.condition? = none ∧ source.state.warnings = warnings ↔
      ∃ text e, source = .expression text ∧ Condition.parse text = .error e ∧
        warnings = [e.message] := by
  cases source with
  | expression text =>
    rw [RuleSource.state, Rule.State.ofExpression]
    cases hparse : Condition.parse text <;> simp [hparse, eq_comm]
  | literal d => simp [RuleSource.state, Rule.State.ofCondition]

namespace RuleSet

variable {set : RuleSet} {config : Config} {name : String} {source : RuleSource}

theorem lookup_states (set : RuleSet) (name : String) :
    set.states.lookup name = (set.get? name).map Rule.state := by
  rw [states, get?]
  induction set.rules with
  | nil => rfl
  | cons entry rules ih =>
    rw [List.map_cons, List.lookup_cons, List.lookup_cons, ih]
    cases name == entry.1 <;> rfl

/-- The rules of a set stand in the order of their names, as in the configuration. -/
theorem ascending_states (engine : Engine) (config : Config) :
    Ascending (((ofConfig config).run engine).value.1).states := by
  rw [states_ofConfig]
  exact List.pairwise_map.mpr Std.TreeMap.ordered_keys_toList

/-- A set has the rules of the configuration under their names, and no others. -/
theorem mem_states_iff (engine : Engine) (config : Config) {state : Rule.State} :
    (name, state) ∈ (((ofConfig config).run engine).value.1).states ↔
      ∃ source, config.rules[name]? = some source ∧ source.state = state := by
  rw [states_ofConfig, List.mem_map]
  constructor
  · rintro ⟨⟨_, source⟩, hmem, heq⟩
    obtain ⟨rfl, rfl⟩ := Prod.mk.inj heq
    exact ⟨source, Std.TreeMap.mem_toList_iff_getElem?_eq_some.mp hmem, rfl⟩
  · rintro ⟨source, hsource, rfl⟩
    exact ⟨(name, source), Std.TreeMap.mem_toList_iff_getElem?_eq_some.mpr hsource, rfl⟩

/-- The rule with a name shows what the source with this name gives. -/
theorem state_get? (engine : Engine) (config : Config) (name : String) :
    ((((ofConfig config).run engine).value.1).get? name).map Rule.state =
      config.rules[name]?.map RuleSource.state := by
  rw [← lookup_states]
  -- a name stands once among the states, so that to be found and to be a member is one thing
  refine Option.ext fun state => ?_
  rw [lookup_eq_some_iff_mem (ascending_states engine config), mem_states_iff,
    Option.map_eq_some_iff]

/-- The failures are the texts that do not compile, each with its error. -/
theorem mem_failures_iff (engine : Engine) (config : Config) {warnings : List String} :
    (name, warnings) ∈ (((ofConfig config).run engine).value.1).failures ↔
      ∃ text e, config.rules[name]? = some (.expression text) ∧ Condition.parse text = .error e ∧
        warnings = [e.message] := by
  rw [failures_eq, List.mem_map]
  constructor
  · rintro ⟨⟨_, state⟩, hmem, heq⟩
    obtain ⟨rfl, rfl⟩ := Prod.mk.inj heq
    obtain ⟨hmem, hnone⟩ := List.mem_filter.mp hmem
    obtain ⟨source, hsource, rfl⟩ := (mem_states_iff engine config).mp hmem
    -- a literal never fails, so the source is a text
    obtain ⟨text, e, rfl, hparse, hwarnings⟩ :=
      RuleSource.failed_iff.mp ⟨Option.isNone_iff_eq_none.mp hnone, rfl⟩
    exact ⟨text, e, hsource, hparse, hwarnings⟩
  · rintro ⟨text, e, hsource, hparse, hwarnings⟩
    obtain ⟨hnone, hstate⟩ := RuleSource.failed_iff.mpr ⟨text, e, rfl, hparse, hwarnings⟩
    refine ⟨(name, RuleSource.state (.expression text)), List.mem_filter.mpr ⟨?_, ?_⟩, ?_⟩
    · exact (mem_states_iff engine config).mpr ⟨_, hsource, rfl⟩
    · exact Option.isNone_iff_eq_none.mpr hnone
    · rw [hstate]

/-- The conditions of a set are those of the sources that have one. -/
theorem mem_conditions_iff (engine : Engine) (config : Config) {c : Condition} :
    (name, c) ∈ (((ofConfig config).run engine).value.1).conditions ↔
      config.rules[name]? = some (.literal c) ∨
        ∃ text, config.rules[name]? = some (.expression text) ∧ Condition.parse text = .ok c := by
  rw [conditions_ofConfig, List.mem_filterMap]
  constructor
  · rintro ⟨⟨_, source⟩, hmem, hc⟩
    obtain ⟨d, hd, heq⟩ := Option.map_eq_some_iff.mp hc
    obtain ⟨rfl, rfl⟩ := Prod.mk.inj heq
    have hsource := Std.TreeMap.mem_toList_iff_getElem?_eq_some.mp hmem
    -- the condition of a source is the literal, or what the expression compiles to
    rcases RuleSource.condition?_state.mp hd with rfl | ⟨text, rfl, hparse⟩
    · exact Or.inl hsource
    · exact Or.inr ⟨text, hsource, hparse⟩
  · intro h
    obtain ⟨source, hsource, hc⟩ : ∃ source, config.rules[name]? = some source ∧
        source.state.condition? = some c := by
      rcases h with hsource | ⟨text, hsource, hparse⟩
      · exact ⟨_, hsource, RuleSource.condition?_state.mpr (Or.inl rfl)⟩
      · exact ⟨_, hsource, RuleSource.condition?_state.mpr (Or.inr ⟨text, rfl, hparse⟩)⟩
    refine ⟨(name, source), Std.TreeMap.mem_toList_iff_getElem?_eq_some.mpr hsource, ?_⟩
    rw [hc]
    rfl

/-- A name matches if its rule has a condition that holds; a failed rule matches nothing. -/
theorem mem_matching_iff {γ : Type} [HasKeys γ] {candidate : γ} :
    name ∈ (set.matching candidate).value ↔
      ∃ c, (name, c) ∈ set.conditions ∧ c.holds candidate = true := by
  rw [matching_eq]
  simp [Traced.pure_def, and_comm]

/-! ## All answers -/

/-- What a set answers, said by the sources of a configuration. -/
structure Answers (set : RuleSet) (config : Config) : Prop where
  size : set.size = config.rules.size
  absent : ∀ name, config.rules[name]? = none → set.get? name = none
  expression : ∀ name text, config.rules[name]? = some (.expression text) →
    ∃ rule, set.get? name = some rule ∧
      ∀ engine, rule.state = ((Rule.build text).run engine).value.1.state
  literal : ∀ name c, config.rules[name]? = some (.literal c) →
    ∃ rule, set.get? name = some rule ∧
      ∀ engine, rule.state = ((Rule.ofCondition c).run engine).value.1.state
  failures_increasing : Text.Increasing (set.failures.map Prod.fst)
  failed : ∀ name warnings, (name, warnings) ∈ set.failures ↔
    ∃ text e, config.rules[name]? = some (.expression text) ∧ Condition.parse text = .error e ∧
      warnings = [e.message]
  matching_increasing : ∀ {γ : Type} [HasKeys γ] (candidate : γ),
    Text.Increasing (set.matching candidate).value
  matched : ∀ {γ : Type} [HasKeys γ] (candidate : γ) (name : String),
    name ∈ (set.matching candidate).value ↔
      ∃ c, (config.rules[name]? = some (.literal c) ∨
          ∃ text, config.rules[name]? = some (.expression text) ∧
            Condition.parse text = .ok c) ∧
        c.holds candidate = true

/-- Each source has its rule in the set, failed or not. -/
theorem exists_rule (engine : Engine) (h : config.rules[name]? = some source) :
    ∃ rule, (((ofConfig config).run engine).value.1).get? name = some rule ∧
      rule.state = source.state := by
  have hstate := state_get? engine config name
  rw [h, Option.map_some] at hstate
  exact Option.map_eq_some_iff.mp hstate

/-- All that a set answers can be read off its configuration. -/
theorem answers (engine : Engine) (config : Config) :
    (((ofConfig config).run engine).value.1).Answers config where
  size := by
    have hlength := congrArg List.length (states_ofConfig engine config)
    rwa [states, List.length_map, List.length_map, Std.TreeMap.length_toList] at hlength
  absent name h := by
    have hstate := state_get? engine config name
    rw [h] at hstate
    exact Option.map_eq_none_iff.mp hstate
  expression name text h := by
    obtain ⟨rule, hrule, hstate⟩ := exists_rule engine h
    exact ⟨rule, hrule, fun other => hstate.trans (Rule.state_build other text).symm⟩
  literal name c h := by
    obtain ⟨rule, hrule, hstate⟩ := exists_rule engine h
    exact ⟨rule, hrule, fun other => hstate.trans (Rule.state_ofCondition other c).symm⟩
  failures_increasing := by
    -- what is listed is taken from the states, which stand in the order of their names
    rw [failures_eq, List.map_map]
    exact Ascending.increasing (List.Pairwise.filter _ (ascending_states engine config))
  failed name warnings := mem_failures_iff engine config
  matching_increasing candidate := by
    rw [matching_eq]
    exact Ascending.increasing (List.Pairwise.filter _ (ascending_conditions engine config))
  matched candidate name := by
    simp only [mem_matching_iff, mem_conditions_iff]

/-- No rule both fails and matches. -/
theorem Answers.not_failed (h : set.Answers config) {γ : Type} [HasKeys γ] {candidate : γ}
    (hmatched : name ∈ (set.matching candidate).value) : name ∉ set.failures.map Prod.fst := by
  intro hfailed
  obtain ⟨⟨_, warnings⟩, hmem, rfl⟩ := List.mem_map.mp hfailed
  obtain ⟨text, e, hsource, hparse, -⟩ := (h.failed _ _).mp hmem
  -- the only source of the name is an expression that fails, which matches nothing
  obtain ⟨c, hliteral | ⟨text', hsource', hparse'⟩, -⟩ := (h.matched candidate _).mp hmatched
  · rw [hsource] at hliteral
    cases hliteral
  · rw [hsource] at hsource'
    cases hsource'
    rw [hparse] at hparse'
    cases hparse'

/-- The set of a configuration answers by the sources of the configuration. No rule both fails and
matches, and what is answered for a name is the same in every configuration with this source under
the name, whatever becomes of the other rules. -/
theorem answers_ofConfig (config : Config) (engine : Engine) :
    let set := ((ofConfig config).run engine).value.1
    set.Answers config ∧
    (∀ {γ : Type} [HasKeys γ] (candidate : γ), ∀ name ∈ (set.matching candidate).value,
      name ∉ set.failures.map Prod.fst) ∧
    ∀ (config' : Config) (engine' : Engine) (name : String),
      config'.rules[name]? = config.rules[name]? →
      let set' := ((ofConfig config').run engine').value.1
      (set'.get? name).map Rule.state = (set.get? name).map Rule.state ∧
      (∀ warnings, (name, warnings) ∈ set'.failures ↔ (name, warnings) ∈ set.failures) ∧
      ∀ {γ : Type} [HasKeys γ] (candidate : γ),
        name ∈ (set'.matching candidate).value ↔ name ∈ (set.matching candidate).value := by
  intro set
  have hset : set.Answers config := answers engine config
  refine ⟨hset, fun candidate name hmatched => hset.not_failed hmatched, ?_⟩
  intro config' engine' name hsource set'
  have hset' : set'.Answers config' := answers engine' config'
  -- both sets answer by the sources, and the name has the same source in both configurations
  refine ⟨?_, fun warnings => ?_, fun candidate => ?_⟩
  · rw [state_get?, state_get?, hsource]
  · rw [hset.failed, hset'.failed, hsource]
  · rw [hset.matched, hset'.matched, hsource]

open Expression in
/-- A rule holds beside one that fails as it does beside one that holds. -/
theorem answers_ofConfig_beside_failure :
    let table : Config.Table := Std.TreeMap.insert {} "a" (.expression "x")
    let config : Config := ⟨table.insert "b" (.expression "x &&")⟩
    let config' : Config := ⟨table.insert "b" (.literal (.group .or [.key "x"]))⟩
    let set := ((ofConfig config).run {}).value.1
    let set' := ((ofConfig config').run {}).value.1
    config'.rules["a"]? = config.rules["a"]? ∧
      ("b", ["There must be an odd number of tokens, e.g. X || Y. Found 2"]) ∈ set.failures ∧
      "b" ∉ (set.matching [("x", ())]).value ∧ "b" ∈ (set'.matching [("x", ())]).value ∧
      "a" ∈ (set.matching [("x", ())]).value ∧ "a" ∈ (set'.matching [("x", ())]).value := by
  intro table config config' set set'
  have htokens : tokens "x" = Part.tokensAll [.word "x"] := by decide
  have hkey : Condition.parse "x" = .ok (.key "x") := parse_of_condition htokens rfl
  have htokens' : tokens "x &&" = Part.tokensAll [.word "x", .word "&&"] := by decide
  have hbad : Condition.parse "x &&" = .error (.evenItems 2) :=
    parse_of_fault htokens' (by decide) rfl
  have ha : config.rules["a"]? = some (.expression "x") := by
    simp only [config, table, Std.TreeMap.getElem?_insert]
    decide
  have hb : config.rules["b"]? = some (.expression "x &&") := by simp [config]
  have hb' : config'.rules["b"]? = some (.literal (.group .or [.key "x"])) := by simp [config']
  have hsource : config'.rules["a"]? = config.rules["a"]? := by
    simp [config, config', Std.TreeMap.getElem?_insert]
  obtain ⟨hset, hapart, hsame⟩ := answers_ofConfig config {}
  obtain ⟨hset', -, -⟩ := answers_ofConfig config' {}
  have hfailed := (hset.failed "b" _).mpr ⟨_, _, hb, hbad, rfl⟩
  have hmatched : "a" ∈ (set.matching [("x", ())]).value :=
    (hset.matched _ "a").mpr ⟨_, Or.inr ⟨_, ha, hkey⟩, rfl⟩
  refine ⟨hsource, hfailed, ?_, ?_, hmatched, ?_⟩
  · -- a name among the failures is not among the matching ones
    exact fun h => hapart _ _ h (List.mem_map.mpr ⟨_, hfailed, rfl⟩)
  · exact (hset'.matched _ "b").mpr ⟨_, Or.inl hb', rfl⟩
  · -- both sets answer alike for `a`, whose source is the same
    exact ((hsame config' {} "a" hsource).2.2 _).mpr hmatched

end RuleSet

end KeyRules
