import KeyRules.Proofs.Reload
import KeyRules.Proofs.Rewritten

/-!
# KeyRules — the expression of a literal rule

The rule of a literal shows the text of its condition as its expression. Where the keys are clean
words this expression means what the literal means: building it gives a rule that holds for the same
candidates. The condition of that rule need not be the literal's own, because a group of one operand
cannot be told from the operand in an expression; and it makes no difference to a candidate.

* `Condition.holds_unwrapped` — a group of one operand holds when the operand does.
* `Condition.filled_of_ofLiteral` — what is read as a literal has no empty group.
* `Rule.build_expression` — the rule that the expression of a literal rule gives.
-/

namespace KeyRules

namespace Condition

variable {γ : Type} [HasKeys γ]

/-- A group of one operand holds when its operand does, whatever its operator is. -/
theorem holds_unwrapGroup (candidate : γ) (op : Operator) (operands : List Condition) :
    (unwrapGroup op operands).holds candidate = (group op operands).holds candidate := by
  match operands with
  | [] | _ :: _ :: _ => rfl
  | [c] => cases op <;> simp [unwrapGroup, holds_group]

/-- The operands of a group count only by their values. -/
theorem holds_group_map {f : Condition → Condition} {candidate : γ} {operands : List Condition}
    (h : ∀ c ∈ operands, (f c).holds candidate = c.holds candidate) (op : Operator) :
    (group op (operands.map f)).holds candidate = (group op operands).holds candidate := by
  cases op with
  | and =>
    rw [holds, holds, allHold_eq_all, allHold_eq_all, List.all_map, Bool.eq_iff_iff,
      List.all_eq_true, List.all_eq_true]
    exact forall₂_congr fun c hc => by rw [Function.comp, h c hc]
  | or =>
    rw [holds, holds, anyHolds_eq_any, anyHolds_eq_any, List.any_map, Bool.eq_iff_iff,
      List.any_eq_true, List.any_eq_true]
    exact exists_congr fun c => and_congr_right fun hc => by rw [Function.comp, h c hc]

/-- Groups of one operand make no difference to a candidate. -/
theorem holds_unwrapped (candidate : γ) (c : Condition) :
    c.unwrapped.holds candidate = c.holds candidate := by
  induction c using Condition.induct with
  | key name => rfl
  | group op operands ih =>
    -- first the operands lose their groups of one operand, then the group itself if it is one
    rw [unwrapped, unwrappedAll_eq_map, holds_unwrapGroup, holds_group_map ih]

/-- In a condition that was read every group has an operand. -/
theorem filled_of_ofLiteral {text : String} {c : Condition} (h : ofLiteral text = .ok c) :
    c.Filled := by
  obtain ⟨v, -, hread⟩ := parse_of_ofLiteral h
  exact filled_of_ofJson? hread

end Condition

namespace Rule

/-- The rule that the text of a condition gives. -/
theorem state_build_render {c : Condition} (hfilled : c.Filled) (hclean : c.Clean)
    (engine : Engine) :
    ((build c.render).run engine).value.1.state = ⟨c.render, some c.unwrapped, []⟩ := by
  rw [state_build, State.ofExpression, parse_render_unwrapped hfilled hclean]

/-- The expression of a literal rule whose keys are clean words compiles, to the condition of the
rule without its groups of one operand, and holds for the same candidates. No literal has an empty
group, which would have no text. -/
theorem build_expression :
    (∀ (text : String) (c : Condition), Condition.ofLiteral text = .ok c → c.Filled) ∧
    ∀ c : Condition, c.Filled → c.Clean → ∀ engine engine' : Engine,
      let literal := ((ofCondition c).run engine).value.1
      let rule := ((build literal.expression).run engine').value.1
      rule.compiled = true ∧ rule.condition? = some c.unwrapped ∧ rule.warnings = [] ∧
        ∀ {γ : Type} [HasKeys γ] (candidate : γ),
          rule.test candidate = literal.test candidate := by
  refine ⟨fun text c h => Condition.filled_of_ofLiteral h, ?_⟩
  intro c hfilled hclean engine engine' literal rule
  have hstate : rule.state = ⟨c.render, some c.unwrapped, []⟩ :=
    state_build_render hfilled hclean engine'
  have hcondition : rule.condition? = some c.unwrapped := congrArg State.condition? hstate
  refine ⟨?_, hcondition, congrArg State.warnings hstate, ?_⟩
  · obtain ⟨tree, htree, -⟩ := Option.map_eq_some_iff.mp hcondition
    rw [compiled, htree]
    rfl
  · intro γ _ candidate
    -- the literal rule keeps the condition as it was given
    have hliteral : literal.condition? = some c := rfl
    rw [test_of_condition hcondition, test_of_condition hliteral, Condition.holds_unwrapped]

open Condition in
/-- A chain of groups of one operand around a group, in which a key looks like an operator. -/
theorem build_expression_of_chain :
    let c : Condition := .group .and [.group .or [.group .and [.key "a", .key "||"]]]
    let literal := ((ofCondition c).run {}).value.1
    let rule := ((build literal.expression).run {}).value.1
    ofLiteral "\x7b\"$and\":[\x7b\"$or\":[\x7b\"$and\":[\"a\",\"||\"]\x7d]\x7d]\x7d" = .ok c ∧
      c.Filled ∧ c.Clean ∧ literal.expression = "((a && ||))" ∧
      rule.condition? = some (.group .and [.key "a", .key "||"]) ∧
      (rule.test [("||", ())]).value = (literal.test [("||", ())]).value := by
  intro c literal rule
  have hparse : Json.parse Json.nestingLimit
        "\x7b\"$and\":[\x7b\"$or\":[\x7b\"$and\":[\"a\",\"||\"]\x7d]\x7d]\x7d" =
      (.ok (c.toJson, true) : Except (Json.Fault LiteralFault) (Json × Bool)) := rfl
  have hread : ofLiteral _ = .ok c := (ofLiteral_eq_ok_iff hparse).mpr rfl
  have hfilled : c.Filled := build_expression.1 _ _ hread
  have hclean : c.Clean := by
    unfold Clean
    decide
  obtain ⟨-, hcondition, -, htest⟩ := build_expression.2 c hfilled hclean {} {}
  exact ⟨hread, hfilled, hclean, rfl, hcondition, congrArg Traced.value (htest _)⟩

end Rule

end KeyRules
