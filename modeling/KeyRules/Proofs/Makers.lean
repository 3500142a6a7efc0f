import KeyRules.Proofs.Balanced
import KeyRules.Proofs.Sharing
import KeyRules.Proofs.Transparency

/-!
# KeyRules — where the state of a rule comes from

What can be seen of the rule in a slot was decided by one command: the last one that made a rule in
this slot, or in the slot that the rule was copied from, and so on. Which command this is can be
read off the commands, without an engine; what was in the cache when it ran, what the slot held
before, and what was done to other slots leaves no trace.

* `Command.made?` — what the rule that a command makes shows.
* `Command.maker?` — the command that made the rule of a slot.
* `Session.state_after` — the rule of a slot shows what its maker made.
* `state_of_maker` — so in every state that commands lead to.
-/

namespace KeyRules

namespace Command

/-- What the rule that a command makes shows, for the commands that make one. -/
def made? : Command → Option Rule.State
  | .build _ text | .cached _ text | .update _ text => some (.ofExpression text)
  | .blank _ => some ⟨"", none, []⟩
  | .adopt _ source => source.condition.toOption.map .ofCondition
  | _ => none

/-- The command that made the rule of a slot, given the commands so far with the latest one first;
copies are followed to the rule that was copied. None if the slot is empty. -/
def maker? : List Command → String → Option Command
  | [], _ => none
  | command :: earlier, slot =>
    match command with
    | .build written _ | .cached written _ | .blank written =>
      if slot = written then some command else maker? earlier slot
    | .adopt written source =>
      if slot = written ∧ source.condition.isOk then some command else maker? earlier slot
    | .update written _ =>
      if slot = written ∧ (maker? earlier written).isSome then some command
      else maker? earlier slot
    | .clone model written =>
      if slot = written ∧ (maker? earlier model).isSome then maker? earlier model
      else maker? earlier slot
    | _ => maker? earlier slot

end Command

open Command (maker?)

variable {s : Session} {command : Command} {earlier : List Command} {slot : String}

/-- A command makes the rule of a slot that has no source, and leaves every other rule as its
source was. -/
theorem maker?_cons (hheld : ∀ slot, slot ∈ s.rules ↔ (maker? earlier slot).isSome)
    (command : Command) (slot : String) :
    maker? (command :: earlier) slot =
      (s.source? command slot).elim (some command) (maker? earlier) := by
  cases command with
  -- a slot is in use just when it has a maker, which is what updates and copies ask for
  | build written text | cached written text | blank written =>
    by_cases h : slot = written <;> simp [maker?, Session.source?, h]
  | adopt written source =>
    by_cases h : slot = written ∧ source.condition.isOk = true <;>
      simp [maker?, Session.source?, h]
  | update written text =>
    by_cases h : slot = written ∧ (maker? earlier written).isSome = true <;>
      simp [maker?, Session.source?, hheld, h]
  | clone model written =>
    by_cases h : slot = written ∧ (maker? earlier model).isSome = true <;>
      simp [maker?, Session.source?, hheld, h]
  | _ => rfl

namespace Session

/-- A slot shows the rule that was put there last. -/
theorem state_insert (rules : Std.HashMap String Rule) (slot : String) (rule : Rule) :
    ((rules.insert slot rule)[slot]?).map Rule.state = some rule.state := by
  rw [Std.HashMap.getElem?_insert_self, Option.map_some]

/-- A rule without a source shows what its command made. -/
theorem state_step (hsound : s.engine.Sound) (hsource : s.source? command slot = none) :
    ((s.step command).value.2.rules[slot]?).map Rule.state = command.made? := by
  cases command with
  | build written text =>
    obtain rfl : slot = written := by simpa [source?] using hsource
    exact (state_insert s.rules slot _).trans (congrArg some (Rule.state_build s.engine text))
  | cached written text =>
    obtain rfl : slot = written := by simpa [source?] using hsource
    exact (state_insert s.rules slot _).trans (congrArg some (Rule.state_cached hsound text))
  | blank written =>
    obtain rfl : slot = written := by simpa [source?] using hsource
    exact state_insert s.rules slot {}
  | adopt written source =>
    obtain ⟨rfl, hok⟩ : slot = written ∧ source.condition.isOk = true := by
      simpa [source?] using hsource
    cases hcondition : source.condition with
    | ok c =>
      rw [step, Command.made?, hcondition]
      exact (state_insert s.rules slot _).trans
        (congrArg some (Rule.state_ofCondition s.engine c))
    | error e =>
      rw [hcondition] at hok
      cases hok
  | update written text =>
    obtain ⟨rfl, hmem⟩ : slot = written ∧ written ∈ s.rules := by
      simpa [source?] using hsource
    obtain ⟨rule, hrule⟩ := mem_rules_iff.mp hmem
    rw [step, hrule]
    exact (state_insert s.rules slot _).trans (congrArg some (Rule.state_build s.engine text))
  | clone model written =>
    -- a copy has a source, the rule that was copied
    rw [source?] at hsource
    split at hsource <;> cases hsource
  | _ => cases hsource

/-- A command that was the last to write a slot makes a rule. -/
theorem isSome_made? (h : maker? earlier slot = some command) : command.made?.isSome = true := by
  induction earlier generalizing slot with
  | nil => cases h
  | cons latest earlier ih =>
    cases latest with
    | build | cached | blank =>
      rw [maker?] at h
      split at h
      · obtain rfl := Option.some.inj h
        rfl
      · exact ih h
    | adopt written source =>
      rw [maker?] at h
      split at h
      · -- a source without a condition would not have written the slot
        rename_i hwritten
        obtain rfl := Option.some.inj h
        cases hcondition : source.condition with
        | ok c => simp [Command.made?, hcondition, Except.toOption]
        | error e =>
          rw [hcondition] at hwritten
          cases hwritten.2
      · exact ih h
    | update written text =>
      rw [maker?] at h
      split at h
      · obtain rfl := Option.some.inj h
        rfl
      · exact ih h
    | clone model written =>
      rw [maker?] at h
      split at h <;> exact ih h
    | _ => exact ih h

/-- The rule of a slot shows what its maker made, and an empty slot has no maker. -/
theorem state_after (earlier : List Command) (slot : String) :
    ((after {} earlier.reverse).rules[slot]?).map Rule.state =
      (maker? earlier slot).bind Command.made? := by
  induction earlier generalizing slot with
  | nil => simp [after, run, Traced.pure_def, maker?]
  | cons command earlier ih =>
    have hheld (slot : String) :
        slot ∈ (after {} earlier.reverse).rules ↔ (maker? earlier slot).isSome := by
      have hsome := congrArg Option.isSome (ih slot)
      rw [Option.isSome_map] at hsome
      rw [Std.HashMap.mem_iff_isSome_getElem?, hsome]
      cases hmaker : maker? earlier slot with
      | none => rfl
      | some command => simp [isSome_made? hmaker]
    have hsound : (after {} earlier.reverse).engine.Sound := sound_after earlier.reverse
    rw [List.reverse_cons, after_append, maker?_cons hheld]
    -- the latest command made the rule, or the rule shows what its source showed before
    show (((after {} earlier.reverse).step command).value.2.rules[slot]?).map Rule.state = _
    cases hsource : (after {} earlier.reverse).source? command slot with
    | none => exact state_step hsound hsource
    | some origin =>
      rw [(stepped _ command).getElem?_source hsource]
      exact ih origin

end Session

/-! ## What a rule can look like -/

/-- An expression gives a condition and no warning, or one warning and no condition. -/
theorem Rule.State.ofExpression_cases (text : String) :
    (∃ c, State.ofExpression text = ⟨text, some c, []⟩) ∨
      ∃ warning, State.ofExpression text = ⟨text, none, [warning]⟩ := by
  rw [State.ofExpression]
  cases Condition.parse text with
  | ok c => exact Or.inl ⟨c, rfl⟩
  | error e => exact Or.inr ⟨e.message, rfl⟩

/-- A command makes a rule with a condition, a rule with a warning, or the default rule. -/
theorem Command.made?_cases {state : Rule.State} (h : command.made? = some state) :
    (∃ text c, state = ⟨text, some c, []⟩) ∨
      (∃ text warning, state = ⟨text, none, [warning]⟩) ∨ state = ⟨"", none, []⟩ := by
  have hexpression {text : String} (h : some (Rule.State.ofExpression text) = some state) :
      (∃ text c, state = ⟨text, some c, []⟩) ∨
        (∃ text warning, state = ⟨text, none, [warning]⟩) ∨ state = ⟨"", none, []⟩ := by
    obtain rfl := Option.some.inj h
    rcases Rule.State.ofExpression_cases text with ⟨c, hc⟩ | ⟨warning, hwarning⟩
    · exact Or.inl ⟨text, c, hc⟩
    · exact Or.inr (Or.inl ⟨text, warning, hwarning⟩)
  -- three commands compile a text, one writes a blank rule, and one adopts a condition
  cases command with
  | build _ text | cached _ text | update _ text => exact hexpression h
  | blank => exact Or.inr (Or.inr (Option.some.inj h).symm)
  | adopt _ source =>
    obtain ⟨c, -, rfl⟩ := Option.map_eq_some_iff.mp h
    exact Or.inl ⟨c.render, c, rfl⟩
  | _ => cases h

theorem Rule.eq_default_of_state {rule : Rule} (h : rule.state = ⟨"", none, []⟩) : rule = {} := by
  obtain ⟨expression, tree?, warnings⟩ := rule
  obtain ⟨rfl, htree, rfl⟩ := Rule.State.mk.inj h
  obtain rfl : tree? = none := Option.map_eq_none_iff.mp htree
  rfl

/-- The rule of a slot shows what was made by the command that made it, whatever happened before and
since. So it never has a condition and a warning; without a condition it is the default rule or has
a single warning; and a test gives the value of its condition, or false when it has none. -/
theorem state_of_maker :
    (∀ (commands : List Command) (slot : String),
      ((Session.after {} commands).rules[slot]?).map Rule.state =
        (maker? commands.reverse slot).bind Command.made?) ∧
    ∀ (commands : List Command) (slot : String) (rule : Rule),
      (Session.after {} commands).rules[slot]? = some rule →
      (rule.condition? = none ∨ rule.warnings = []) ∧
      (rule.condition? = none → rule = {} ∨ ∃ warning, rule.warnings = [warning]) ∧
      ∀ {γ : Type} [HasKeys γ] (candidate : γ),
        (rule.test candidate).value = rule.condition?.any (Condition.holds candidate) := by
  have hstate (commands : List Command) (slot : String) :
      ((Session.after {} commands).rules[slot]?).map Rule.state =
        (maker? commands.reverse slot).bind Command.made? := by
    simpa using Session.state_after commands.reverse slot
  refine ⟨hstate, fun commands slot rule hrule => ?_⟩
  have hmade := hstate commands slot
  rw [hrule, Option.map_some] at hmade
  obtain ⟨command, -, hmade⟩ := Option.bind_eq_some_iff.mp hmade.symm
  have htest {γ : Type} [HasKeys γ] (candidate : γ) :
      (rule.test candidate).value = rule.condition?.any (Condition.holds candidate) := by
    cases hcondition : rule.condition? with
    | some c => rw [Rule.test_of_condition hcondition]; rfl
    | none => rw [Rule.test_of_no_condition hcondition]; rfl
  -- the fields are consistent in what any command makes, so they are in this rule
  rcases Command.made?_cases hmade with ⟨text, c, h⟩ | ⟨text, warning, h⟩ | h
  · have hcondition : rule.condition? = some c := congrArg Rule.State.condition? h
    refine ⟨Or.inr (congrArg Rule.State.warnings h), fun hnone => ?_, htest⟩
    rw [hcondition] at hnone
    cases hnone
  · exact ⟨Or.inl (congrArg Rule.State.condition? h),
      fun _ => Or.inr ⟨warning, congrArg Rule.State.warnings h⟩, htest⟩
  · obtain rfl := Rule.eq_default_of_state h
    exact ⟨Or.inl rfl, fun _ => Or.inl rfl, htest⟩

open Expression in
/-- A copy keeps the condition that was taken through the cache when the rule it was copied from
gets an expression that fails, and when the cache is emptied. -/
theorem state_of_maker_after_update :
    let commands : List Command :=
      [.build "r" "(", .cached "r" "a", .clone "r" "q", .update "r" "a &&", .clear]
    ∃ rule copy : Rule, (Session.after {} commands).rules["r"]? = some rule ∧
      rule.state =
        ⟨"a &&", none, ["There must be an odd number of tokens, e.g. X || Y. Found 2"]⟩ ∧
      (Session.after {} commands).rules["q"]? = some copy ∧
      copy.state = ⟨"a", some (.key "a"), []⟩ ∧
      (rule.test [("a", ())]).value = false ∧ (copy.test [("a", ())]).value = true := by
  intro commands
  have htokens : tokens "a" = Part.tokensAll [.word "a"] := by decide
  have hkey : Condition.parse "a" = .ok (.key "a") := parse_of_condition htokens rfl
  have htokens' : tokens "a &&" = Part.tokensAll [.word "a", .word "&&"] := by decide
  have hbad : Condition.parse "a &&" = .error (.evenItems 2) :=
    parse_of_fault htokens' (by decide) rfl
  -- the update is the last maker of `r`
  have hmaker : (maker? commands.reverse "r").bind Command.made? =
      some ⟨"a &&", none, [Error.message (.evenItems 2)]⟩ := by
    show some (Rule.State.ofExpression "a &&") = _
    rw [Rule.State.ofExpression, hbad]
  -- the clone was taken before the update, so `q` goes back to the cached expression
  have hmaker' : (maker? commands.reverse "q").bind Command.made? =
      some ⟨"a", some (.key "a"), []⟩ := by
    show some (Rule.State.ofExpression "a") = _
    rw [Rule.State.ofExpression, hkey]
  obtain ⟨rule, hrule, hstate⟩ :=
    Option.map_eq_some_iff.mp ((state_of_maker.1 commands "r").trans hmaker)
  obtain ⟨copy, hcopy, hstate'⟩ :=
    Option.map_eq_some_iff.mp ((state_of_maker.1 commands "q").trans hmaker')
  have hcondition : rule.condition? = none := congrArg Rule.State.condition? hstate
  have hcondition' : copy.condition? = some (.key "a") := congrArg Rule.State.condition? hstate'
  obtain ⟨-, -, htest⟩ := state_of_maker.2 commands "r" rule hrule
  obtain ⟨-, -, htest'⟩ := state_of_maker.2 commands "q" copy hcopy
  refine ⟨rule, copy, hrule, hstate, hcopy, hstate', ?_, ?_⟩
  · rw [htest, hcondition]
    rfl
  · rw [htest', hcondition']
    rfl

end KeyRules
