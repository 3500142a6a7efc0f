import KeyRules.Proofs.Faults
import KeyRules.Proofs.LiteralRules

/-!
# KeyRules — regrouping operands

Operands that stand next to each other under one operator can be put in parentheses, and such
parentheses can be taken away. The condition changes its shape and may keep a group less, but it
holds for the same candidates. An operand that does not compile makes both expressions fail, and it
is the same operand that is reported, since the new group has no fault of its own and leaves the
order in which the other groups open as it is.

* `Operator.join`, `OperandText` — operands with an operator between them, as texts.
* `tokens_join` — the tokens of joined texts.
* `groupCondition?_joinParts`, `fault_joinParts` — what joined parts compile to.
* `lastFault?_regrouped`, `holds_regrouped` — the fault and the value of regrouped operands.
* `parse_regrouped` — regrouped expressions.
* `Rule.build_regrouped` — the rules of regrouped expressions.
-/

namespace KeyRules

open Expression
open KeyRules.Expression.Part (tokensAll groupsAll)
open Condition (unwrapGroup)

/-! ## Joined texts -/

/-- Texts with an operator between them. -/
def Operator.join (op : Operator) (texts : List String) : String :=
  (" " ++ op.symbol ++ " ").intercalate texts

/-- An operand as it is written: a word, or a balanced text in parentheses. -/
inductive OperandText : String → Prop where
  | word {text : String} (h : CleanWord text) : OperandText text
  | parens {text : String} (h : Balanced (tokens text)) : OperandText ("(" ++ text ++ ")")

variable {text : String} {texts : List String} {op : Operator} {p : Part}
  {ps xs ys zs : List Part} {c : Condition}

/-- A word alone is one token. -/
theorem tokens_of_cleanWord (h : CleanWord text) : tokens text = [.word text] := by
  have hspells := Spells.word h (by simp [WordEnds]) .nil
  rw [List.append_nil] at hspells
  exact tokens_eq_iff.mpr hspells

/-- A blank in front is not read. -/
theorem tokens_space_append (text : String) : tokens (" " ++ text) = tokens text := by
  rw [tokens_eq_iff, String.toList_append]
  exact .blank (by decide) (spells_tokens text)

theorem wordEnds_space_append (text : String) : WordEnds (" " ++ text).toList := by
  rw [String.toList_append]
  exact wordEnds_space

/-- Two texts with an operator between them, which the blanks around it keep apart from both. -/
theorem tokens_symbol_between (op : Operator) (front back : String) :
    tokens (front ++ (" " ++ op.symbol ++ " ") ++ back) =
      tokens front ++ .word op.symbol :: tokens back := by
  have hassoc : front ++ (" " ++ op.symbol ++ " ") ++ back =
      front ++ (" " ++ (op.symbol ++ (" " ++ back))) := by
    simp only [String.append_assoc]
  rw [hassoc, tokens_append (wordEnds_space_append _), tokens_space_append,
    tokens_append (wordEnds_space_append _), tokens_space_append,
    tokens_of_cleanWord (cleanWord_symbol op), List.singleton_append]

/-- Joined texts have the operator as a word of its own between their tokens. -/
theorem tokens_join (op : Operator) (texts : List String) :
    tokens (op.join texts) = [.word op.symbol].intercalate (texts.map tokens) := by
  induction texts with
  | nil => rfl
  | cons text texts ih =>
    cases texts with
    | nil => simp [Operator.join]
    | cons next texts =>
      have hjoin : op.join (text :: next :: texts) =
          text ++ (" " ++ op.symbol ++ " ") ++ op.join (next :: texts) :=
        String.intercalate_cons_cons
      rw [hjoin, tokens_symbol_between, ih]
      simp

/-- An operand is a single part. -/
theorem OperandText.exists_part (h : OperandText text) : ∃ p : Part, tokens text = p.tokens := by
  cases h with
  | word hword => exact ⟨.word text, tokens_of_cleanWord hword⟩
  | @parens inner hbalanced =>
    obtain ⟨ps, hps⟩ := (balanced_iff (group_not_mem_tokens inner)).mp hbalanced
    exact ⟨.group ps, by rw [tokens_inParens, hps, inParens_eq_tokens]⟩

/-- Texts of operands have one part each. -/
theorem exists_parts (h : ∀ text ∈ texts, OperandText text) :
    ∃ ps : List Part, texts.map tokens = ps.map Part.tokens := by
  induction texts with
  | nil => exact ⟨[], rfl⟩
  | cons text texts ih =>
    obtain ⟨p, hp⟩ := (h text (List.mem_cons_self ..)).exists_part
    obtain ⟨ps, hps⟩ := ih fun t ht => h t (List.mem_cons_of_mem text ht)
    exact ⟨p :: ps, by rw [List.map_cons, List.map_cons, hp, hps]⟩

/-! ## Joined parts -/

/-- Parts with an operator between them. -/
def Operator.joinParts (op : Operator) (ps : List Part) : List Part :=
  ps.intersperse (.word op.symbol)

theorem joinParts_cons_cons (op : Operator) (p q : Part) (ps : List Part) :
    op.joinParts (p :: q :: ps) = p :: .word op.symbol :: op.joinParts (q :: ps) :=
  List.intersperse_cons_cons

/-- The text of joined parts is the texts of the parts with the operator between them. -/
theorem tokensAll_joinParts (op : Operator) (ps : List Part) :
    tokensAll (op.joinParts ps) = [.word op.symbol].intercalate (ps.map Part.tokens) := by
  induction ps with
  | nil => rfl
  | cons p ps ih =>
    cases ps with
    | nil => simp [Operator.joinParts, tokensAll]
    | cons q ps =>
      rw [joinParts_cons_cons, tokensAll, tokensAll, ih]
      simp [Part.tokens]

/-- Texts with the tokens of parts have, joined, the tokens of the joined parts. -/
theorem tokens_join_of_parts (h : texts.map tokens = ps.map Part.tokens) (op : Operator) :
    tokens (op.join texts) = tokensAll (op.joinParts ps) := by
  rw [tokens_join, tokensAll_joinParts, h]

/-- The operands of joined parts are the parts. -/
theorem evens_joinParts (op : Operator) (ps : List Part) : evens (op.joinParts ps) = ps := by
  induction ps with
  | nil => rfl
  | cons p ps ih =>
    cases ps with
    | nil => rfl
    | cons q ps => rw [joinParts_cons_cons, evens, ih]

/-- The joiners of joined parts are all the operator. -/
theorem eq_of_mem_odds_joinParts (h : p ∈ odds (op.joinParts ps)) : p = .word op.symbol := by
  induction ps with
  | nil => cases h
  | cons q ps ih =>
    cases ps with
    | nil => cases h
    | cons r ps =>
      rw [joinParts_cons_cons, odds] at h
      rcases List.mem_cons.mp h with rfl | hrest
      · rfl
      · exact ih hrest

/-- Joined parts are odd in number, as the items of a group have to be. -/
theorem length_joinParts (op : Operator) (hne : ps ≠ []) : (op.joinParts ps).length % 2 = 1 := by
  have hpos := List.length_pos_iff.mpr hne
  rw [Operator.joinParts, List.length_intersperse]
  omega

/-- Joined parts have the group of their conditions, or the condition of a single part. -/
theorem groupCondition?_joinParts (op : Operator) (hne : ps ≠ []) :
    groupCondition? (op.joinParts ps) = (ps.mapM Part.condition?).map (unwrapGroup op) := by
  match ps, hne with
  | [p], _ =>
    show p.condition? = _
    cases h : p.condition? <;> simp [unwrapGroup, h]
  | p :: q :: ps, _ =>
    rw [joinParts_cons_cons, groupCondition?_eq (length_joinParts op (List.cons_ne_nil q ps))
      fun r => eq_of_mem_odds_joinParts, evens_joinParts]
    -- two conditions at least, so that the group stays a group
    cases hp : p.condition? <;> cases hq : q.condition? <;>
      cases hps : ps.mapM Part.condition? <;> simp [hp, hq, hps, unwrapGroup]

/-- Joined parts are in order, whatever the parts are. -/
theorem fault_joinParts (op : Operator) (hne : ps ≠ []) : fault (op.joinParts ps) = none := by
  match ps, hne with
  | [p], _ => rfl
  | p :: q :: ps, _ =>
    rw [joinParts_cons_cons, fault_eq_none_iff]
    exact ⟨length_joinParts op (List.cons_ne_nil q ps), op, rfl,
      fun r => eq_of_mem_odds_joinParts⟩

theorem groupsAll_append (ps qs : List Part) :
    groupsAll (ps ++ qs) = groupsAll ps ++ groupsAll qs := by
  induction ps with
  | nil => rfl
  | cons p ps ih => rw [List.cons_append, groupsAll, groupsAll, ih, List.append_assoc]

/-- The operators between the parts open no groups. -/
theorem groupsAll_joinParts (op : Operator) (ps : List Part) :
    groupsAll (op.joinParts ps) = groupsAll ps := by
  induction ps with
  | nil => rfl
  | cons p ps ih =>
    cases ps with
    | nil => rfl
    | cons q ps =>
      rw [joinParts_cons_cons, groupsAll, groupsAll, groupsAll, ih]
      rfl

/-! ## Parts regrouped -/

/-- The last fault among joined parts is the last one inside a part. -/
theorem lastFault?_joinParts (op : Operator) (hne : ps ≠ []) :
    lastFault? (Part.group (op.joinParts ps)).groups = lastFault? (groupsAll ps) := by
  rw [Part.groups, lastFault?_cons, fault_joinParts op hne, groupsAll_joinParts, Option.or_none]

/-- A group of joined parts adds no fault, and the other groups open in the same order as before. -/
theorem lastFault?_regrouped (op : Operator) (hne : ys ≠ []) :
    lastFault? (Part.group (op.joinParts (xs ++ [.group (op.joinParts ys)] ++ zs))).groups =
      lastFault? (Part.group (op.joinParts (xs ++ ys ++ zs))).groups := by
  have hgroup : lastFault? (groupsAll [.group (op.joinParts ys)]) = lastFault? (groupsAll ys) := by
    rw [← lastFault?_joinParts op hne, groupsAll, groupsAll, List.append_nil]
  rw [lastFault?_joinParts op (by simp), lastFault?_joinParts op (by simp [hne])]
  simp only [groupsAll_append, lastFault?_append, hgroup]

/-- "And" and "or" do not depend on how their operands are grouped. -/
theorem holds_regrouped {γ : Type} [HasKeys γ] (candidate : γ) (op : Operator)
    (cs ds es : List Condition) :
    (unwrapGroup op (cs ++ [unwrapGroup op ds] ++ es)).holds candidate =
      (unwrapGroup op (cs ++ ds ++ es)).holds candidate := by
  rw [Condition.holds_unwrapGroup, Condition.holds_unwrapGroup]
  cases op with
  | and => simp [Condition.holds_group, Condition.holds_unwrapGroup]
  | or => simp [Condition.holds_group, Condition.holds_unwrapGroup]

theorem mapM_append_eq_some_iff {α β : Type} {f : α → Option β} {as bs : List α} {cs : List β} :
    (as ++ bs).mapM f = some cs ↔
      ∃ ds es, as.mapM f = some ds ∧ bs.mapM f = some es ∧ cs = ds ++ es := by
  rw [List.mapM_append]
  cases as.mapM f <;> cases bs.mapM f <;> simp [eq_comm]

/-- When joined parts have a condition, the regrouped ones have one with the same value. -/
theorem groupCondition?_regrouped (hne : ys ≠ [])
    (h : groupCondition? (op.joinParts (xs ++ ys ++ zs)) = some c) :
    ∃ d, groupCondition? (op.joinParts (xs ++ [.group (op.joinParts ys)] ++ zs)) = some d ∧
      ∀ {γ : Type} [HasKeys γ] (candidate : γ), d.holds candidate = c.holds candidate := by
  rw [groupCondition?_joinParts op (by simp [hne])] at h
  obtain ⟨all, hall, rfl⟩ := Option.map_eq_some_iff.mp h
  obtain ⟨front, es, hfront, hes, rfl⟩ := mapM_append_eq_some_iff.mp hall
  obtain ⟨cs, ds, hcs, hds, rfl⟩ := mapM_append_eq_some_iff.mp hfront
  -- the group is one part, and its condition has the conditions of `ys` as operands
  have hgroup : [Part.group (op.joinParts ys)].mapM Part.condition? =
      some [unwrapGroup op ds] := by
    have hcondition : (Part.group (op.joinParts ys)).condition? = some (unwrapGroup op ds) := by
      rw [Part.condition?, groupCondition?_joinParts op hne, hds, Option.map_some]
    simp [hcondition]
  refine ⟨unwrapGroup op (cs ++ [unwrapGroup op ds] ++ es), ?_,
    fun candidate => holds_regrouped candidate op cs ds es⟩
  rw [groupCondition?_joinParts op (by simp), mapM_append_eq_some_iff.mpr
    ⟨_, es, mapM_append_eq_some_iff.mpr ⟨cs, _, hcs, hgroup, rfl⟩, hes, rfl⟩, Option.map_some]

/-! ## Expressions regrouped -/

section Texts

variable (op : Operator) {front operands back : List String}
  (hfront : ∀ text ∈ front, OperandText text) (hoperands : ∀ text ∈ operands, OperandText text)
  (hback : ∀ text ∈ back, OperandText text) (hne : operands ≠ [])

include hfront hoperands hback hne

/-- Operands with some of them in parentheses, and without: both texts fail with the same error, or
their conditions hold for the same candidates. -/
theorem parse_regrouped :
    (∃ e, Condition.parse (op.join (front ++ operands ++ back)) = .error e ∧
      Condition.parse (op.join (front ++ ["(" ++ op.join operands ++ ")"] ++ back)) = .error e) ∨
    ∃ c d, Condition.parse (op.join (front ++ operands ++ back)) = .ok c ∧
      Condition.parse (op.join (front ++ ["(" ++ op.join operands ++ ")"] ++ back)) = .ok d ∧
      ∀ {γ : Type} [HasKeys γ] (candidate : γ), d.holds candidate = c.holds candidate := by
  obtain ⟨xs, hxs⟩ := exists_parts hfront
  obtain ⟨ys, hys⟩ := exists_parts hoperands
  obtain ⟨zs, hzs⟩ := exists_parts hback
  have hne' : ys ≠ [] := by
    rintro rfl
    exact hne (by simpa using hys)
  -- as parts the two texts differ only by the group around `ys`
  have hflat : tokens (op.join (front ++ operands ++ back)) =
      tokensAll (op.joinParts (xs ++ ys ++ zs)) :=
    tokens_join_of_parts (by simp [hxs, hys, hzs]) op
  have hgroup : tokens ("(" ++ op.join operands ++ ")") =
      (Part.group (op.joinParts ys)).tokens := by
    rw [tokens_inParens, tokens_join_of_parts hys, inParens_eq_tokens]
  have hnested : tokens (op.join (front ++ ["(" ++ op.join operands ++ ")"] ++ back)) =
      tokensAll (op.joinParts (xs ++ [.group (op.joinParts ys)] ++ zs)) :=
    tokens_join_of_parts (by simp [hxs, hgroup, hzs]) op
  cases hparse : Condition.parse (op.join (front ++ operands ++ back)) with
  | error e =>
    -- the error is the last fault of a group, and the new group has none
    refine Or.inl ⟨e, rfl, ?_⟩
    rw [parse_eq_error_iff_lastFault? hflat] at hparse
    rw [parse_eq_error_iff_lastFault? hnested, lastFault?_regrouped op hne', hparse]
  | ok c =>
    rw [parse_eq_iff_verdict, hflat, verdict_inParens_ok_iff] at hparse
    obtain ⟨d, hd, hholds⟩ := groupCondition?_regrouped hne' hparse
    exact Or.inr ⟨c, d, rfl, parse_of_condition hnested hd, hholds⟩

/-- The rule of operands that are joined by one operator, and the rule with some neighbouring
operands in parentheses: both fail with the same warning, or both compile and hold for the same
candidates. -/
theorem Rule.build_regrouped (engine engine' : Engine) :
    let flat := ((build (op.join (front ++ operands ++ back))).run engine).value.1
    let nested :=
      ((build (op.join (front ++ ["(" ++ op.join operands ++ ")"] ++ back))).run engine').value.1
    (flat.compiled = false ∧ nested.compiled = false ∧
      ∃ e : Error, flat.warnings = [e.message] ∧ nested.warnings = [e.message]) ∨
    (flat.compiled = true ∧ nested.compiled = true ∧
      ∀ {γ : Type} [HasKeys γ] (candidate : γ), flat.test candidate = nested.test candidate) := by
  intro flat nested
  rcases parse_regrouped op hfront hoperands hback hne with ⟨e, hflat, hnested⟩ | h
  · -- the two texts have the same error
    have hfailed := build_of_error hflat engine
    have hfailed' := build_of_error hnested engine'
    exact Or.inl ⟨hfailed.1, hfailed'.1, e, hfailed.2, hfailed'.2⟩
  · obtain ⟨c, d, hflat, hnested, hholds⟩ := h
    -- the conditions may differ, but not in what they hold for
    have hbuilt := build_of_ok hflat engine
    have hbuilt' := build_of_ok hnested engine'
    refine Or.inr ⟨hbuilt.1, hbuilt'.1, fun candidate => ?_⟩
    rw [test_of_condition hbuilt.2, test_of_condition hbuilt'.2, hholds]

end Texts

/-- Operands that look like operators, with two of them in parentheses; and two operands with a
fault, of which the second one is reported, with and without parentheses around it. -/
theorem Rule.build_regrouped_around_fault :
    let flat := ((build "|| || && || (b && c) || (d)").run {}).value.1
    let nested := ((build "|| || (&& || (b && c)) || (d)").run {}).value.1
    let failed := ((build "(a b) && c && (d e f g)").run {}).value.1
    let failed' := ((build "(a b) && (c && (d e f g))").run {}).value.1
    flat.compiled = true ∧ nested.compiled = true ∧
      flat.test [("&&", ())] = nested.test [("&&", ())] ∧
      failed.compiled = false ∧ failed'.compiled = false ∧ failed.warnings = failed'.warnings := by
  intro flat nested failed failed'
  have hparens {text : String} {ps : List Part} (hps : tokens text = tokensAll ps) :
      OperandText ("(" ++ text ++ ")") := .parens (hps ▸ balanced_tokensAll ps)
  have hor : ∀ text ∈ ["||"], OperandText text := by
    simpa using .word (by decide)
  have hand : ∀ text ∈ ["&&", "(b && c)"], OperandText text := by
    have hgroup : tokens "b && c" = tokensAll [.word "b", .word "&&", .word "c"] := by decide
    simpa using ⟨.word (by decide), hparens hgroup⟩
  have hd : ∀ text ∈ ["(d)"], OperandText text := by
    have hgroup : tokens "d" = tokensAll [.word "d"] := by decide
    simpa using hparens hgroup
  have hab : ∀ text ∈ ["(a b)"], OperandText text := by
    have hgroup : tokens "a b" = tokensAll [.word "a", .word "b"] := by decide
    simpa using hparens hgroup
  have hc : ∀ text ∈ ["c", "(d e f g)"], OperandText text := by
    have hgroup : tokens "d e f g" = tokensAll [.word "d", .word "e", .word "f", .word "g"] := by
      decide
    simpa using ⟨.word (by decide), hparens hgroup⟩
  have hparts : tokens "|| || && || (b && c) || (d)" =
      tokensAll [.word "||", .word "||", .word "&&", .word "||",
        .group [.word "b", .word "&&", .word "c"], .word "||", .group [.word "d"]] := by decide
  have hparts' : tokens "(a b) && c && (d e f g)" =
      tokensAll [.group [.word "a", .word "b"], .word "&&", .word "c", .word "&&",
        .group [.word "d", .word "e", .word "f", .word "g"]] := by decide
  have hflat : flat.compiled = true := (build_of_ok (parse_of_condition hparts rfl) {}).1
  have hfailed : failed.compiled = false :=
    (build_of_error ((parse_eq_error_iff_lastFault? hparts').mpr rfl) {}).1
  have hregrouped := build_regrouped .or hor hand hd (by decide) {} {}
  have hregrouped' := build_regrouped .and hab hc (List.forall_mem_nil _) (by decide) {} {}
  -- one of the two outcomes is ruled out by how the flat text compiles
  rcases hregrouped with ⟨hcontra, -⟩ | ⟨-, hnested, htest⟩
  · exact absurd (hflat.symm.trans hcontra) (by decide)
  rcases hregrouped' with ⟨-, hfailed', e, hwarnings, hwarnings'⟩ | ⟨hcontra, -⟩
  · exact ⟨hflat, hnested, htest _, hfailed, hfailed', hwarnings.trans hwarnings'.symm⟩
  · exact absurd (hcontra.symm.trans hfailed) (by decide)

end KeyRules
