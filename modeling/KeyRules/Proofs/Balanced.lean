import KeyRules.Proofs.Extraction

/-!
# KeyRules — balanced expressions

On a text in which every parenthesis has its partner, taking out the group that opens last, again
and again, does what the grammar says: an expression compiles just when the grammar derives
a condition for its tokens, and then to that condition.

* `verdict_inParens_ok_iff` — a balanced text in parentheses calls for the condition of its parts.
* `parse_of_condition`, `parse_of_fault` — the outcome of a text whose parts are given.
* `parse_eq_ok_iff_derives` — the conditions that compiling gives are the ones derived.
-/

namespace KeyRules.Expression

open KeyRules.Expression.Part (tokensAll groupsAll)

variable {ts : List Token} {ps : List Part} {c : Condition}

/-- No parenthesis of a list of parts in parentheses lacks its partner, so compiling it never
stops at an unclosed one. -/
theorem not_unclosed_inParens (ps : List Part) (i : Nat) :
    ¬ Unclosed (inParens (tokensAll ps)) i := by
  rw [inParens_eq_tokensAll]
  exact (balanced_tokensAll [.group ps]).1 i

/-- The verdict on balanced parts in parentheses is the condition of the outermost group, where it
has one. -/
theorem verdict_inParens_ok_iff :
    Verdict (inParens (tokensAll ps)) (.ok c) ↔ groupCondition? ps = some c := by
  constructor
  · intro h
    generalize hr : Except.ok c = r at h
    cases h with
    | faulty => cases hr
    | unclosed hopen => exact absurd hopen (not_unclosed_inParens ps _)
    | whole hts hc =>
      cases hr
      rwa [inParens_injective hts]
    | scattered => cases hr
  · exact fun h => .whole rfl h

/-- A text of parts that have a condition compiles to it. For a given text this leaves two
computations: its tokens and the condition of its parts. -/
theorem parse_of_condition {text : String} (htext : tokens text = tokensAll ps)
    (hc : groupCondition? ps = some c) : Condition.parse text = .ok c := by
  rw [parse_eq_iff_verdict, htext]
  exact verdict_inParens_ok_iff.mpr hc

/-- A text of parts that are faulty together, but not one by one, fails with their fault. -/
theorem parse_of_fault {text : String} {e : Error} (htext : tokens text = tokensAll ps)
    (hinner : ∀ qs ∈ groupsAll ps, fault qs = none) (he : fault ps = some e) :
    Condition.parse text = .error e := by
  rw [parse_eq_iff_verdict, htext]
  refine .faulty (groupAt_zero ps []) he fun j hj => ?_
  refine ⟨not_unclosed_inParens ps j, fun qs hqs => ?_⟩
  -- behind the first parenthesis only groups among the parts open
  obtain ⟨k, rfl⟩ : ∃ k, j = k + 1 := ⟨j - 1, by omega⟩
  have hgroup : GroupAt (tokensAll ps ++ [.closer]) k qs := groupAt_cons.mp hqs
  have hopener := hgroup.opener
  have hk : k < (tokensAll ps).length := by
    have hlt := (List.getElem?_eq_some_iff.mp hopener).1
    rw [List.length_append, List.length_singleton] at hlt
    rcases Nat.lt_or_ge k (tokensAll ps).length with h | h
    · exact h
    · obtain rfl : k = (tokensAll ps).length := by omega
      simp at hopener
  obtain ⟨qs', hmem, hgroup', -⟩ := opener_inside ps [.closer] hk hopener
  rw [hgroup.unique hgroup']
  exact hinner qs' hmem

/-- A balanced expression compiles to the conditions that the grammar derives for its tokens. There
is at most one. -/
theorem parse_eq_ok_iff_derives (text : String) (h : Balanced (tokens text)) :
    (∀ c, Condition.parse text = .ok c ↔ Derives (tokens text) c) ∧
      ∀ c d, Derives (tokens text) c → Derives (tokens text) d → c = d := by
  obtain ⟨ps, hps⟩ := (balanced_iff (group_not_mem_tokens text)).mp h
  refine ⟨fun c => ?_, fun c d hc hd => hc.unique hd⟩
  rw [parse_eq_iff_verdict, hps, verdict_inParens_ok_iff, derives_tokensAll_iff]

/-- Operands may look like operators, also inside a group. -/
theorem parse_of_operators_as_operands :
    Balanced (tokens "&& || (|| && ((x)) && b) || (&&)") ∧
      Condition.parse "&& || (|| && ((x)) && b) || (&&)" =
        .ok (.group .or [.key "&&", .group .and [.key "||", .key "x", .key "b"], .key "&&"]) := by
  have hparts : tokens "&& || (|| && ((x)) && b) || (&&)" =
      tokensAll [.word "&&", .word "||",
        .group [.word "||", .word "&&", .group [.group [.word "x"]], .word "&&", .word "b"],
        .word "||", .group [.word "&&"]] := by decide
  have hbalanced : Balanced (tokens "&& || (|| && ((x)) && b) || (&&)") :=
    hparts ▸ balanced_tokensAll _
  refine ⟨hbalanced, ((parse_eq_ok_iff_derives _ hbalanced).1 _).mpr ?_⟩
  rw [hparts, derives_tokensAll_iff]
  decide

end KeyRules.Expression
