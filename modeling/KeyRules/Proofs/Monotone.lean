import KeyRules.Proofs.Balanced
import KeyRules.Proofs.Reload

/-!
# KeyRules — more keys, more rules

Conditions only ask for keys and never for their absence, so a candidate with more keys satisfies
more conditions. What belongs to a key, and in what kind of container it is kept, makes no
difference. A rule set therefore lists for a candidate with more keys all the rules that it lists
for one with fewer, in the same order.

* `Condition.holds_mono`, `Condition.holds_congr` — the keys that a condition asks for decide.
* `hasKey_ofList`, `hasKey_of_not_object` — the keys of each kind of container.
* `RuleSet.matching_sublist`, `RuleSet.matching_congr` — the same for the rules of a set.
* `RuleSet.matching_monotone` — what the keys of candidates say about the rules that match them.
-/

namespace KeyRules

variable {γ δ : Type} [HasKeys γ] [HasKeys δ] {a : γ} {b : δ}

/-! ## Conditions -/

namespace Condition

variable {c : Condition}

/-- A condition that holds goes on holding when no key is lost that it asks for. -/
theorem holds_mono (hkeys : ∀ name ∈ c.keys, hasKey a name = true → hasKey b name = true)
    (h : c.holds a = true) : c.holds b = true := by
  induction c using Condition.induct with
  | key name => exact hkeys name (List.mem_singleton_self name) h
  | group op operands ih =>
    -- by induction an operand goes on holding, since its keys are keys of the group
    have hoperand : ∀ c ∈ operands, c.holds a = true → c.holds b = true := by
      intro c hc
      exact ih c hc fun name hname => hkeys name (mem_keysAll.mpr ⟨c, hc, hname⟩)
    rw [holds_group] at h ⊢
    cases op with
    | and =>
      rw [List.all_eq_true] at h ⊢
      exact fun c hc => hoperand c hc (h c hc)
    | or =>
      rw [List.any_eq_true] at h ⊢
      obtain ⟨c, hc, hholds⟩ := h
      exact ⟨c, hc, hoperand c hc hholds⟩

/-- Only the keys that a condition asks for count. -/
theorem holds_congr (hkeys : ∀ name ∈ c.keys, hasKey a name = hasKey b name) :
    c.holds a = c.holds b := by
  rw [Bool.eq_iff_iff]
  exact ⟨holds_mono fun name hname h => (hkeys name hname).symm.trans h,
    holds_mono fun name hname h => (hkeys name hname).trans h⟩

end Condition

/-! ## Containers -/

section Containers

variable {α : Type} (fields : List (String × α)) (name : String)

/-- The keys of an object are the names of its fields. -/
theorem hasKey_fields : hasKey fields name = (fields.map Prod.fst).contains name := by
  rw [Bool.eq_iff_iff]
  simp [hasKey]

/-- Whatever container the names are put into, they are its keys. -/
theorem hasKey_ofList :
    hasKey (Std.HashMap.ofList fields) name = hasKey fields name ∧
      hasKey (Std.TreeMap.ofList fields) name = hasKey fields name ∧
      hasKey (Std.HashSet.ofList (fields.map Prod.fst)) name = hasKey fields name ∧
      hasKey (Std.TreeSet.ofList (fields.map Prod.fst)) name = hasKey fields name := by
  rw [hasKey_fields]
  exact ⟨Std.HashMap.contains_ofList, Std.TreeMap.contains_ofList, Std.HashSet.contains_ofList,
    Std.TreeSet.contains_ofList⟩

/-- Any other value has no keys. -/
theorem hasKey_of_not_object {v : Json} (h : ∀ fields, v ≠ .object fields) :
    hasKey v name = false := by
  cases v with
  | object fields => exact absurd rfl (h fields)
  | _ => rfl

end Containers

/-! ## Rule sets -/

namespace RuleSet

variable (set : RuleSet)

/-- The rules that match a candidate match every candidate with more keys, in the same order. -/
theorem matching_sublist (hkeys : ∀ key, hasKey a key = true → hasKey b key = true) :
    (set.matching a).value.Sublist (set.matching b).value := by
  have hholds (entry : String × Condition) (h : entry.2.holds a = true) :
      entry.2.holds b = true := Condition.holds_mono (fun key _ => hkeys key) h
  rw [matching_eq, matching_eq]
  exact (List.monotone_filter_right set.conditions hholds).map Prod.fst

/-- Candidates with the same keys are matched by the same rules. -/
theorem matching_congr (hkeys : ∀ key, hasKey a key = hasKey b key) :
    set.matching a = set.matching b := by
  have hholds (entry : String × Condition) : entry.2.holds a = entry.2.holds b :=
    Condition.holds_congr fun key _ => hkeys key
  rw [matching_eq, matching_eq]
  simp only [hholds]

/-- Only keys count, and no key switches a rule off. A candidate that has every key of another is
matched by all the rules that match the other, in the same order. Values and the kind of container
make no difference, and a JSON value that is not an object is matched like an empty container. -/
theorem matching_monotone :
    (∀ {γ δ : Type} [HasKeys γ] [HasKeys δ] (a : γ) (b : δ),
      (∀ key, hasKey a key = true → hasKey b key = true) →
        (set.matching a).value.Sublist (set.matching b).value) ∧
    (∀ {γ δ : Type} [HasKeys γ] [HasKeys δ] (a : γ) (b : δ),
      (∀ key, hasKey a key = hasKey b key) → set.matching a = set.matching b) ∧
    (∀ fields : List (String × Json),
      set.matching (Json.object fields) = set.matching fields ∧
      set.matching (Std.HashMap.ofList fields) = set.matching fields ∧
      set.matching (Std.TreeMap.ofList fields) = set.matching fields ∧
      set.matching (Std.HashSet.ofList (fields.map Prod.fst)) = set.matching fields ∧
      set.matching (Std.TreeSet.ofList (fields.map Prod.fst)) = set.matching fields) ∧
    ∀ v : Json, (∀ fields, v ≠ .object fields) → ∀ {γ : Type} [HasKeys γ] (empty : γ),
      (∀ key, hasKey empty key = false) → set.matching v = set.matching empty := by
  refine ⟨fun a b => set.matching_sublist, fun a b => set.matching_congr, fun fields => ?_, ?_⟩
  · exact ⟨set.matching_congr fun _ => rfl,
      set.matching_congr fun key => (hasKey_ofList fields key).1,
      set.matching_congr fun key => (hasKey_ofList fields key).2.1,
      set.matching_congr fun key => (hasKey_ofList fields key).2.2.1,
      set.matching_congr fun key => (hasKey_ofList fields key).2.2.2⟩
  · -- a value that is no object has no keys, like any empty collection
    intro v hv γ _ empty hempty
    exact set.matching_congr fun key => (hasKey_of_not_object key hv).trans (hempty key).symm

open Expression in
/-- Of a rule that needs two keys, one that fails and a literal, an object with one of the keys is
matched by the literal alone, a set of both keys by the first as well, and a text by none. -/
theorem matching_monotone_object_set :
    ∃ text set, text =
        "\x7b\"rules\":\x7b\"a\":\"x && y\",\"b\":\"x &&\",\"c\":\x7b\"$or\":[\"y\"]\x7d\x7d\x7d" ∧
      ((ofText text).run {}).value.1 = .ok set ∧
      set.conditions = [("a", .group .and [.key "x", .key "y"]), ("c", .group .or [.key "y"])] ∧
      let object : Json := .object [("y", .string "v")]
      let keys : Std.HashSet String := .ofList ["x", "y"]
      (set.matching object).value = ["c"] ∧ (set.matching keys).value = ["a", "c"] ∧
      (set.matching object).value.Sublist (set.matching keys).value ∧
      set.matching keys = set.matching [("y", 0), ("x", 1)] ∧
      set.matching (Json.string "x") = set.matching (∅ : Std.HashSet String) := by
  have hparse : Json.parse Json.nestingLimit
        "\x7b\"rules\":\x7b\"a\":\"x && y\",\"b\":\"x &&\",\"c\":\x7b\"$or\":[\"y\"]\x7d\x7d\x7d" =
      (.ok (.object [("rules", .object [("a", .string "x && y"), ("b", .string "x &&"),
        ("c", .object [("$or", .array [.string "y"])])])], true) :
        Except (Json.Fault ConfigFault) (Json × Bool)) := rfl
  let entries : List (String × RuleSource) :=
    [("a", .expression "x && y"), ("b", .expression "x &&"),
      ("c", .literal (.group .or [.key "y"]))]
  have hconfig : Config.ofText _ = .ok ⟨.ofList entries⟩ := Config.ofText_of_rules hparse
  have hconditions : (((ofConfig ⟨.ofList entries⟩).run {}).value.1).conditions =
      [("a", .group .and [.key "x", .key "y"]), ("c", .group .or [.key "y"])] := by
    have hlist : (Std.TreeMap.ofList entries : Config.Table).toList = entries :=
      Config.toList_ofList (by unfold Ascending; decide)
    have hwords : tokens "x && y" = Part.tokensAll [.word "x", .word "&&", .word "y"] := by decide
    have hboth : Condition.parse "x && y" = .ok (.group .and [.key "x", .key "y"]) :=
      parse_of_condition hwords rfl
    have hpair : tokens "x &&" = Part.tokensAll [.word "x", .word "&&"] := by decide
    have hbad : Condition.parse "x &&" = .error (.evenItems 2) := parse_of_fault hpair nofun rfl
    rw [conditions_ofConfig, hlist]
    simp [entries, RuleSource.state, Rule.State.ofExpression, Rule.State.ofCondition, hboth, hbad]
  refine ⟨_, _, rfl, run_ofText hconfig {}, hconditions, ?_⟩
  -- from here on only the conditions of the set count
  generalize ((ofConfig ⟨.ofList entries⟩).run {}).value.1 = set at hconditions
  intro object keys
  have hfewer : ∀ key, hasKey object key = true → hasKey keys key = true := by
    intro key h
    have hkey : "y" = key := by simpa [object, hasKey] using h
    simp [keys, hasKey, ← hkey]
  have hsame : ∀ key, hasKey keys key = hasKey [("y", 0), ("x", 1)] key := by
    intro key
    have hset : hasKey keys key = hasKey [("x", 1), ("y", 0)] key :=
      (hasKey_ofList [("x", 1), ("y", 0)] key).2.2.1
    rw [hset]
    simp [hasKey, Bool.or_comm]
  refine ⟨?_, ?_, (matching_monotone set).1 object keys hfewer,
    (matching_monotone set).2.1 keys _ hsame,
    (matching_monotone set).2.2.2 (.string "x") (fun _ => by simp) _ fun _ => by simp [hasKey]⟩
  · rw [matching_eq, hconditions]
    rfl
  · rw [set.matching_congr hsame, matching_eq, hconditions]
    rfl

end RuleSet

end KeyRules
