import KeyRules.Proofs.LiteralRules
import KeyRules.Proofs.Monotone
import KeyRules.Proofs.Words
import Mathlib.Data.Set.Lattice

/-!
# KeyRules — witnesses

A condition can be read as a choice between sets of keys that are enough for it, its witnesses: it
holds for a candidate that has all the keys of one of them. An empty group is no exception, since
"and" of nothing asks for no key and "or" of nothing has no witness at all. Where every group has an
operand, as in all conditions that are loaded, there is a witness and each one has a key, so that no
such condition has the same value for all candidates.

* `Condition.Witness` — the sets of keys that are enough for a condition.
* `Condition.holds_iff_exists_witness` — a condition holds when a candidate has one of them.
* `Condition.witness_semantics` — the same, with what it says about the keys that count.
* `Condition.Filled.exists_witness`, `Condition.Filled.nonempty_of_witness` — filled conditions.
* `Condition.loaded_never_constant` — no condition that is loaded is constant.
-/

namespace KeyRules

namespace Condition

variable {γ : Type} [HasKeys γ] {candidate : γ} {c : Condition} {s : Set String}

/-- A member of the first list has a partner in the second. -/
theorem forall₂_exists_right {α β : Type} {R : α → β → Prop} {xs : List α} {ys : List β} {x : α}
    (h : List.Forall₂ R xs ys) (hx : x ∈ xs) : ∃ y ∈ ys, R x y :=
  forall₂_exists_left h.flip hx

/-- Partners that each member has make a list of partners. -/
theorem exists_forall₂ {α β : Type} {R : α → β → Prop} {xs : List α} (h : ∀ x ∈ xs, ∃ y, R x y) :
    ∃ ys, List.Forall₂ R xs ys := by
  induction xs with
  | nil => exact ⟨[], .nil⟩
  | cons x xs ih =>
    obtain ⟨y, hy⟩ := h x List.mem_cons_self
    obtain ⟨ys, hys⟩ := ih fun z hz => h z (List.mem_cons_of_mem x hz)
    exact ⟨y :: ys, .cons hy hys⟩

/-! ## Sets of keys that are enough -/

/-- The sets of keys that are enough for a condition: for "and" a witness of each operand, taken
together, and for "or" a witness of any operand. -/
inductive Witness : Condition → Set String → Prop where
  | key (name : String) : Witness (.key name) {name}
  | and {operands : List Condition} {sets : List (Set String)}
      (h : List.Forall₂ Witness operands sets) : Witness (.group .and operands) (⋃ s ∈ sets, s)
  | or {operands : List Condition} {c : Condition} {s : Set String} (hc : c ∈ operands)
      (h : Witness c s) : Witness (.group .or operands) s

/-- A condition holds for a candidate that has all the keys of a witness. -/
theorem Witness.holds (h : Witness c s) (hkeys : ∀ name ∈ s, hasKey candidate name = true) :
    c.holds candidate = true := by
  induction c using Condition.induct generalizing s with
  | key name =>
    cases h
    exact hkeys name rfl
  | group op operands ih =>
    rw [holds_group]
    cases h with
    | @and _ sets hsets =>
      -- every operand has a part of the witness for itself
      rw [List.all_eq_true]
      intro c hc
      obtain ⟨s, hs, hwitness⟩ := forall₂_exists_right hsets hc
      exact ih c hc hwitness fun name hname => hkeys name (Set.mem_biUnion hs hname)
    | @or _ c _ hc hwitness =>
      rw [List.any_eq_true]
      exact ⟨c, hc, ih c hc hwitness hkeys⟩

/-- Where a condition holds, the candidate has all the keys of one of its witnesses. -/
theorem exists_witness_of_holds (h : c.holds candidate = true) :
    ∃ s, Witness c s ∧ ∀ name ∈ s, hasKey candidate name = true := by
  induction c using Condition.induct with
  | key name =>
    refine ⟨{name}, .key name, ?_⟩
    rintro _ rfl
    exact h
  | group op operands ih =>
    rw [holds_group] at h
    cases op with
    | and =>
      rw [List.all_eq_true] at h
      -- one witness for each operand, which the candidate has the keys of
      obtain ⟨sets, hsets⟩ := exists_forall₂ fun c hc => ih c hc (h c hc)
      refine ⟨_, .and (hsets.imp fun c s hs => hs.1), ?_⟩
      intro name hname
      obtain ⟨s, hs, hmem⟩ := Set.mem_iUnion₂.mp hname
      obtain ⟨c, -, -, hkeys⟩ := forall₂_exists_left hsets hs
      exact hkeys name hmem
    | or =>
      rw [List.any_eq_true] at h
      obtain ⟨c, hc, hholds⟩ := h
      obtain ⟨s, hwitness, hkeys⟩ := ih c hc hholds
      exact ⟨s, .or hc hwitness, hkeys⟩

/-- A condition holds just when the candidate has all keys of some witness. -/
theorem holds_iff_exists_witness :
    c.holds candidate = true ↔ ∃ s, Witness c s ∧ ∀ name ∈ s, hasKey candidate name = true :=
  ⟨exists_witness_of_holds, fun ⟨_, hwitness, hkeys⟩ => hwitness.holds hkeys⟩

/-- Witnesses consist of keys that the condition asks for. -/
theorem Witness.subset_keys (h : Witness c s) {name : String} (hname : name ∈ s) :
    name ∈ c.keys := by
  induction c using Condition.induct generalizing s with
  | key key =>
    cases h
    exact List.mem_singleton.mpr hname
  | group op operands ih =>
    rw [keys, mem_keysAll]
    cases h with
    | @and _ sets hsets =>
      obtain ⟨s, hs, hmem⟩ := Set.mem_iUnion₂.mp hname
      obtain ⟨c, hc, hwitness⟩ := forall₂_exists_left hsets hs
      exact ⟨c, hc, ih c hc hwitness hmem⟩
    | @or _ c _ hc hwitness => exact ⟨c, hc, ih c hc hwitness hname⟩

/-- A condition holds for the candidates that have all keys of one of its witnesses, and for no
others. What else a candidate has beside keys that the condition asks for makes no difference. -/
theorem witness_semantics (c : Condition) :
    (∀ {γ : Type} [HasKeys γ] (candidate : γ), c.holds candidate = true ↔
      ∃ s, Witness c s ∧ ∀ name ∈ s, hasKey candidate name = true) ∧
    ∀ {γ δ : Type} [HasKeys γ] [HasKeys δ] (a : γ) (b : δ),
      (∀ name ∈ c.keys, hasKey a name = hasKey b name) → c.holds a = c.holds b :=
  ⟨fun _ => holds_iff_exists_witness, fun _ _ => holds_congr⟩

/-- An empty "and" asks for nothing, so that one key is enough here, whatever else a candidate has.
An empty "or" below an "and" leaves the "and" without a witness. -/
theorem witness_semantics_of_empty_groups :
    let c : Condition := .group .and [.key "a", .group .or [.key "b", .group .and []]]
    let never : Condition := .group .and [.key "a", .group .or []]
    let fields : List (String × Nat) := [("x", 0), ("a", 1)]
    (∃ s, Witness c s ∧ ∀ name ∈ s, hasKey fields name = true) ∧
      (¬ ∃ s, Witness never s ∧ ∀ name ∈ s, hasKey fields name = true) ∧
      c.holds fields = c.holds (Std.HashSet.ofList ["a"]) := by
  intro c never fields
  have hholds : c.holds fields = true := by decide
  have hnever : never.holds fields ≠ true := by decide
  refine ⟨((witness_semantics c).1 fields).mp hholds,
    mt ((witness_semantics never).1 fields).mpr hnever, (witness_semantics c).2 fields _ ?_⟩
  intro name hname
  have hkey : name = "a" ∨ name = "b" := by simpa [c, keys, keysAll] using hname
  rcases hkey with rfl | rfl
  · simp [fields, hasKey]
  · simp [fields, hasKey]

/-! ## Conditions that are not constant -/

/-- A condition without empty groups has a witness. -/
theorem Filled.exists_witness (h : c.Filled) : ∃ s, Witness c s := by
  induction h with
  | key name => exact ⟨{name}, .key name⟩
  | @group op operands hne _ ih =>
    cases op with
    | and =>
      obtain ⟨sets, hsets⟩ := exists_forall₂ ih
      exact ⟨_, .and hsets⟩
    | or =>
      obtain ⟨c, hc⟩ := List.exists_mem_of_ne_nil operands hne
      obtain ⟨s, hs⟩ := ih c hc
      exact ⟨s, .or hc hs⟩

/-- Each witness of such a condition asks for some key. -/
theorem Filled.nonempty_of_witness (hfilled : c.Filled) (h : Witness c s) : s.Nonempty := by
  induction hfilled generalizing s with
  | key name =>
    cases h
    exact Set.singleton_nonempty name
  | @group op operands hne _ ih =>
    cases h with
    | @and _ sets hsets =>
      -- the witness of any operand is a part of the union
      obtain ⟨c, hc⟩ := List.exists_mem_of_ne_nil operands hne
      obtain ⟨s, hs, hwitness⟩ := forall₂_exists_right hsets hc
      obtain ⟨name, hname⟩ := ih c hc hwitness
      exact ⟨name, Set.mem_biUnion hs hname⟩
    | @or _ c _ hc hwitness => exact ih c hc hwitness

/-- A filled condition asks for a key. -/
theorem Filled.keys_ne_nil (h : c.Filled) : c.keys ≠ [] := by
  obtain ⟨s, hs⟩ := h.exists_witness
  obtain ⟨name, hname⟩ := h.nonempty_of_witness hs
  exact List.ne_nil_of_mem (hs.subset_keys hname)

/-- All the keys that a filled condition asks for are enough. -/
theorem Filled.holds_of_keys (h : c.Filled)
    (hkeys : ∀ name ∈ c.keys, hasKey candidate name = true) : c.holds candidate = true := by
  obtain ⟨s, hs⟩ := h.exists_witness
  exact hs.holds fun name hname => hkeys name (hs.subset_keys hname)

/-- Without any key that a filled condition asks for it does not hold. -/
theorem Filled.not_holds_of_no_key (h : c.Filled)
    (hkeys : ∀ name ∈ c.keys, hasKey candidate name = false) : c.holds candidate = false := by
  rw [Bool.eq_false_iff]
  intro hholds
  obtain ⟨s, hs, hhas⟩ := exists_witness_of_holds hholds
  obtain ⟨name, hname⟩ := h.nonempty_of_witness hs
  have hmissing : hasKey candidate name = false := hkeys name (hs.subset_keys hname)
  exact absurd ((hhas name hname).symm.trans hmissing) (by decide)

open Expression in
/-- The keys of what an expression compiles to are words of the expression. -/
theorem word_mem_tokens_of_parse {text name : String} (h : Condition.parse text = .ok c)
    (hname : name ∈ c.keys) : .word name ∈ tokens text := by
  have hword : name ∈ words (Part.tokensAll c.parts) := (keys_sublist_words c).subset hname
  exact mem_words_iff.mp ((words_of_parse h).subset hword)

open Expression in
/-- No expression and no literal is read as a condition with the same value for all candidates. It
asks for keys, holds when they are all there and does not hold when none is; and of an expression
they are words. -/
theorem loaded_never_constant {text : String}
    (h : Condition.parse text = .ok c ∨ ofLiteral text = .ok c) :
    c.keys ≠ [] ∧
      (∀ {γ : Type} [HasKeys γ] (candidate : γ),
        (∀ name ∈ c.keys, hasKey candidate name = true) → c.holds candidate = true) ∧
      (∀ {γ : Type} [HasKeys γ] (candidate : γ),
        (∀ name ∈ c.keys, hasKey candidate name = false) → c.holds candidate = false) ∧
      (∀ v : Json, (∀ fields, v = .object fields → fields = []) → c.holds v = false) ∧
      (Condition.parse text = .ok c → ∀ name ∈ c.keys, .word name ∈ tokens text) := by
  have hfilled : c.Filled := by
    rcases h with hparse | hliteral
    · exact (printable_of_parse hparse).filled
    · exact filled_of_ofLiteral hliteral
  refine ⟨hfilled.keys_ne_nil, fun _ => hfilled.holds_of_keys,
    fun _ => hfilled.not_holds_of_no_key, ?_, fun hparse _ => word_mem_tokens_of_parse hparse⟩
  intro v hempty
  -- such a value has no key at all
  refine hfilled.not_holds_of_no_key fun name _ => ?_
  cases v with
  | object fields =>
    obtain rfl := hempty fields rfl
    rfl
  | _ => rfl

open Expression in
/-- What an unclosed parenthesis leaves of an expression, and a literal written as an array in an
array, with a group of one operand and with keys that are not words. -/
theorem loaded_never_constant_of_unclosed :
    let c : Condition := .group .or [.key "a", .group .and [.key "b", .key "||"]]
    let d : Condition := .group .and [.key "x y", .group .or [.key ""]]
    Condition.parse "q (a || (b && ||)" = .ok c ∧
      ofLiteral "[[\"x y\",\x7b\"$or\":[\"\"]\x7d]]" = .ok d ∧
      c.holds [("a", ()), ("b", ()), ("||", ())] = true ∧ c.holds [("q", ())] = false ∧
      (∀ name ∈ c.keys, .word name ∈ tokens "q (a || (b && ||)") ∧
      d.keys ≠ [] ∧ d.holds (Json.object []) = false ∧ d.holds (Json.string "x y") = false := by
  intro c d
  have hshape : inParens (tokens "q (a || (b && ||)") = [] ++ .opener :: Part.tokensAll
      (["q"].map .word ++ .group [.word "a", .word "||",
        .group [.word "b", .word "&&", .word "||"]] :: []) := by decide
  have hparse : Condition.parse "q (a || (b && ||)" = .ok c :=
    parse_of_opener hshape (by decide) rfl
  have hjson : Json.parse Json.nestingLimit "[[\"x y\",\x7b\"$or\":[\"\"]\x7d]]" =
      (.ok (.array [.array [.string "x y", .object [("$or", .array [.string ""])]]], true) :
        Except (Json.Fault LiteralFault) (Json × Bool)) := rfl
  have hread : ofLiteral _ = .ok d := (ofLiteral_eq_ok_iff hjson).mpr rfl
  obtain ⟨-, hall, hnone, -, hwords⟩ := loaded_never_constant (.inl hparse)
  obtain ⟨hkeys, -, -, hvalues, -⟩ := loaded_never_constant (.inr hread)
  exact ⟨hparse, hread, hall _ (by decide), hnone _ (by decide), hwords hparse, hkeys,
    hvalues (.object []) (by simp), hvalues (.string "x y") nofun⟩

end Condition

end KeyRules
