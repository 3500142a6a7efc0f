import KeyRules.Condition.Text
import KeyRules.Proofs.Extraction
import KeyRules.Proofs.LiteralText

/-!
# KeyRules — expression text and back

The expression text of a condition compiles back to the condition when nothing in it can be
mistaken: keys are clean words, and every group has operands to join. No other condition comes
out of an expression at all, whatever the expression looks like. Where a group has a single operand
the text shows the operand only, in parentheses, and that is what comes back for it.

* `Printable` — conditions with a text of their own.
* `Condition.unwrapped` — a condition without its groups of one operand.
* `spells_render` — the text of a condition with clean keys spells the tokens of its parts.
* `parse_render_unwrapped` — what the text of a condition compiles to.
* `printable_of_parse` — what an expression compiles to is printable.
* `parse_render_iff` — the conditions that survive a round trip.
-/

namespace KeyRules

open Expression
open KeyRules.Expression.Part (tokensAll)

/-- Keys are clean words, and groups have two operands or more. -/
inductive Printable : Condition → Prop where
  | key {name : String} (h : CleanWord name) : Printable (.key name)
  | group {op : Operator} {operands : List Condition} (hlen : 2 ≤ operands.length)
      (h : ∀ c ∈ operands, Printable c) : Printable (.group op operands)

/-! ## The parts of a condition's text -/

namespace Condition

mutual

/-- An operand as a part of an expression. -/
def operandPart : Condition → Part
  | key name => .word name
  | group op operands => .group (operandParts op operands)

/-- The operands of a group with their operator between them. -/
def operandParts (op : Operator) : List Condition → List Part
  | [] => []
  | [c] => [operandPart c]
  | c :: d :: cs => operandPart c :: .word op.symbol :: operandParts op (d :: cs)

end

/-- A condition as the parts of an expression. -/
def parts : Condition → List Part
  | key name => [.word name]
  | group op operands => operandParts op operands

/-! ## Groups of one operand -/

/-- Every key is a clean word. -/
def Clean (c : Condition) : Prop :=
  ∀ name ∈ c.keys, CleanWord name

/-- A group, or its operand if it has one only. -/
def unwrapGroup (op : Operator) : List Condition → Condition
  | [c] => c
  | operands => .group op operands

mutual

/-- A condition with every group of one operand replaced by that operand, at every level. -/
def unwrapped : Condition → Condition
  | key name => .key name
  | group op operands => unwrapGroup op (unwrappedAll operands)

/-- Several conditions with their groups of one operand replaced. -/
def unwrappedAll : List Condition → List Condition
  | [] => []
  | c :: cs => c.unwrapped :: unwrappedAll cs

end

theorem unwrappedAll_eq_map (cs : List Condition) : unwrappedAll cs = cs.map unwrapped := by
  induction cs with
  | nil => rfl
  | cons c cs ih => rw [unwrappedAll, ih, List.map_cons]

/-- A group of two operands or more is kept. -/
theorem unwrapGroup_of_two_le (op : Operator) {operands : List Condition}
    (hlen : 2 ≤ operands.length) : unwrapGroup op operands = .group op operands := by
  match operands, hlen with
  | _ :: _ :: _, _ => rfl

theorem clean_key_iff {name : String} : (key name).Clean ↔ CleanWord name := by
  simp [Clean, keys]

theorem clean_group_iff {op : Operator} {operands : List Condition} :
    (group op operands).Clean ↔ ∀ c ∈ operands, c.Clean := by
  simp only [Clean, keys, mem_keysAll]
  exact ⟨fun h c hc name hname => h name ⟨c, hc, hname⟩,
    fun h name ⟨c, hc, hname⟩ => h c hc name hname⟩

end Condition

open Condition

variable {c : Condition} {ts : List Token} {rest : List Char} {text : String}

/-! ## The text of a condition -/

/-- The symbol of an operator is a word. -/
theorem cleanWord_symbol (op : Operator) : CleanWord op.symbol := by
  cases op <;> decide

theorem wordEnds_space : WordEnds (' ' :: rest) :=
  wordEnds_cons (by decide)

mutual

/-- The text of an operand spells its part, in front of any text that does not go on in a word. -/
theorem spells_operand : ∀ {c : Condition}, Clean c → ∀ {ts : List Token} {rest : List Char},
    Spells ts rest → WordEnds rest →
    Spells (c.operandPart.tokens ++ ts) ((renderOperand c).toList ++ rest)
  | .key name, h, ts, rest, hrest, hends => .word (clean_key_iff.mp h) hends hrest
  | .group op operands, h, ts, rest, hrest, hends => by
    have hinner := spells_operands op (clean_group_iff.mp h) (.closer hrest)
      (wordEnds_cons (by decide))
    simpa [operandPart, Part.tokens, inParens, renderOperand] using Spells.opener hinner

/-- The same for the operands of a group with the operator between them. -/
theorem spells_operands : ∀ (op : Operator) {cs : List Condition}, (∀ c ∈ cs, Clean c) →
    ∀ {ts : List Token} {rest : List Char}, Spells ts rest → WordEnds rest →
    Spells (tokensAll (operandParts op cs) ++ ts) ((renderOperands op cs).toList ++ rest)
  | op, [], h, ts, rest, hrest, hends => by
    simpa [operandParts, tokensAll, renderOperands] using hrest
  | op, [c], h, ts, rest, hrest, hends => by
    simpa [operandParts, tokensAll, renderOperands] using
      spells_operand (h c (by simp)) hrest hends
  | op, c :: d :: cs, h, ts, rest, hrest, hends => by
    -- built from the end: the operands behind, the operator between blanks, the first operand
    have htail := spells_operands op (fun e he => h e (List.mem_cons_of_mem c he)) hrest hends
    have hsymbol := Spells.word (cleanWord_symbol op) wordEnds_space (.blank (by decide) htail)
    have hhead := spells_operand (h c (by simp)) (.blank (by decide) hsymbol) wordEnds_space
    simpa [operandParts, tokensAll, Part.tokens, renderOperands] using hhead

end

/-- The text of a condition with clean keys spells the tokens of its parts. -/
theorem spells_render (h : Clean c) : Spells (tokensAll c.parts) c.render.toList := by
  cases c with
  | key name =>
    simpa [parts, tokensAll, Part.tokens, render] using
      Spells.word (clean_key_iff.mp h) (by simp [WordEnds]) .nil
  | group op operands =>
    simpa [parts, render] using
      spells_operands op (clean_group_iff.mp h) .nil (by simp [WordEnds])

/-- The text of a clean condition is read as the parts of the condition. -/
theorem tokens_render (h : Clean c) : tokens c.render = tokensAll c.parts :=
  tokens_eq_iff.mpr (spells_render h)

mutual

/-- The part of an operand has the condition of the operand, without groups of one. -/
theorem condition?_operandPart : ∀ {c : Condition}, Filled c →
    c.operandPart.condition? = some c.unwrapped
  | .key name, _ => rfl
  | .group op operands, h => by
    cases h with
    | group hne h => exact groupCondition?_operandParts op hne h

/-- So have the parts of a group: alone if there is one operand, and joined otherwise. -/
theorem groupCondition?_operandParts : ∀ (op : Operator) {cs : List Condition}, cs ≠ [] →
    (∀ c ∈ cs, Filled c) →
    groupCondition? (operandParts op cs) = some (unwrapGroup op (unwrappedAll cs))
  | op, [], hne, _ => absurd rfl hne
  | op, [c], _, h => condition?_operandPart (h c (by simp))
  | op, c :: d :: cs, _, h => by
    have hhead := condition?_operandPart (h c (by simp))
    have htail := termConditions?_operandParts op (List.cons_ne_nil d cs)
      fun e he => h e (List.mem_cons_of_mem c he)
    rw [operandParts]
    exact groupCondition?_cons_iff.mpr
      ⟨op, c.unwrapped, unwrappedAll (d :: cs), rfl, hhead, htail, rfl⟩

/-- A chain of operands has their conditions, in order. -/
theorem termConditions?_operandParts : ∀ (op : Operator) {cs : List Condition}, cs ≠ [] →
    (∀ c ∈ cs, Filled c) → termConditions? op (operandParts op cs) = some (unwrappedAll cs)
  | op, [], hne, _ => absurd rfl hne
  | op, [c], _, h => by
    simp [operandParts, termConditions?, unwrappedAll, condition?_operandPart (h c (by simp))]
  | op, c :: d :: cs, _, h => by
    have hhead := condition?_operandPart (h c (by simp))
    have htail := termConditions?_operandParts op (List.cons_ne_nil d cs)
      fun e he => h e (List.mem_cons_of_mem c he)
    rw [operandParts]
    exact termConditions?_cons_iff.mpr
      ⟨c.unwrapped, unwrappedAll (d :: cs), rfl, hhead, htail, rfl⟩

end

theorem groupCondition?_parts (h : Filled c) : groupCondition? c.parts = some c.unwrapped := by
  cases h with
  | key name => rfl
  | @group op operands hne h => exact groupCondition?_operandParts op hne h

/-- The text of a condition compiles to the condition without its groups of one operand. -/
theorem parse_render_unwrapped (hfilled : Filled c) (hclean : c.Clean) :
    Condition.parse c.render = .ok c.unwrapped := by
  rw [parse_eq_iff_verdict, tokens_render hclean]
  exact .whole rfl (groupCondition?_parts hfilled)

/-! ## Printable conditions -/

namespace Printable

theorem clean (h : Printable c) : c.Clean := by
  induction h with
  | key h => exact clean_key_iff.mpr h
  | group _ _ ih => exact clean_group_iff.mpr ih

theorem filled (h : Printable c) : Filled c := by
  induction h with
  | key => exact .key _
  | @group op operands hlen _ ih =>
    have hne : operands ≠ [] := by
      rintro rfl
      simp at hlen
    exact .group hne ih

/-- A printable condition has no group of one operand. -/
theorem unwrapped_eq (h : Printable c) : c.unwrapped = c := by
  induction h with
  | key => rfl
  | @group op operands hlen _ ih =>
    have hoperands : unwrappedAll operands = operands := by
      rw [unwrappedAll_eq_map, List.map_congr_left ih, List.map_id']
    rw [unwrapped, hoperands, unwrapGroup_of_two_le op hlen]

end Printable

/-- A printable condition is compiled from its own text: the parts of the text have that
condition. -/
theorem parse_render (h : Printable c) : Condition.parse c.render = .ok c := by
  rw [parse_render_unwrapped h.filled h.clean, h.unwrapped_eq]

/-! ## What expressions compile to -/

mutual

/-- What parts of words compile to can be printed. -/
theorem Expression.Part.printable : ∀ (p : Part) {c : Condition}, p.condition? = some c →
    (∀ text, .word text ∈ p.tokens → CleanWord text) → Printable c
  | .word text, c, h, hclean => by
    cases h
    exact .key (hclean text (by simp [Part.tokens]))
  | .group ps, c, h, hclean => printable_of_groupCondition? ps h fun text hmem =>
    hclean text (by simp [Part.tokens, inParens, hmem])

/-- The same for groups, whose condition has two operands at least or is that of one part. -/
theorem printable_of_groupCondition? : ∀ (ps : List Part) {c : Condition},
    groupCondition? ps = some c → (∀ text, .word text ∈ tokensAll ps → CleanWord text) →
    Printable c
  | [], c, h, _ => by simp [groupCondition?] at h
  | [p], c, h, hclean => p.printable h (by simpa [tokensAll] using hclean)
  | p :: .word symbol :: ps, c, h, hclean => by
    obtain ⟨op, d, ds, -, hd, hds, rfl⟩ := groupCondition?_cons_iff.mp h
    have hhead := p.printable hd fun text hmem => hclean text (by simp [tokensAll, hmem])
    obtain ⟨hne, htail⟩ := printable_of_termConditions? ps hds fun text hmem =>
      hclean text (by simp [tokensAll, hmem])
    refine .group ?_ (List.forall_mem_cons.mpr ⟨hhead, htail⟩)
    have hpos : 0 < ds.length := List.length_pos_iff.mpr hne
    rw [List.length_cons]
    omega
  | _ :: .group _ :: _, c, h, _ => by simp [groupCondition?] at h

/-- The same for chains, whose operands are printed one by one. -/
theorem printable_of_termConditions? : ∀ (ps : List Part) {op : Operator} {cs : List Condition},
    termConditions? op ps = some cs → (∀ text, .word text ∈ tokensAll ps → CleanWord text) →
    cs ≠ [] ∧ ∀ c ∈ cs, Printable c
  | [], op, cs, h, _ => by simp [termConditions?] at h
  | [p], op, cs, h, hclean => by
    obtain ⟨c, hc, rfl⟩ := Option.map_eq_some_iff.mp h
    refine ⟨by simp, ?_⟩
    simpa using p.printable hc (by simpa [tokensAll] using hclean)
  | p :: .word symbol :: ps, op, cs, h, hclean => by
    obtain ⟨d, ds, -, hd, hds, rfl⟩ := termConditions?_cons_iff.mp h
    have hhead := p.printable hd fun text hmem => hclean text (by simp [tokensAll, hmem])
    obtain ⟨-, htail⟩ := printable_of_termConditions? ps hds fun text hmem =>
      hclean text (by simp [tokensAll, hmem])
    exact ⟨List.cons_ne_nil _ _, List.forall_mem_cons.mpr ⟨hhead, htail⟩⟩
  | _ :: .group _ :: _, op, cs, h, _ => by simp [termConditions?] at h

end

/-- What an expression compiles to is printable, also when it has unclosed parentheses, because
the answer is then the condition of a group of the text. -/
theorem printable_of_parse (h : Condition.parse text = .ok c) : Printable c := by
  obtain ⟨ps, hc, hinfix⟩ := (parse_eq_iff_verdict.mp h).infix_of_ok
  refine printable_of_groupCondition? ps hc ?_
  -- the words of these parts are words of the text
  intro word hmem
  have hin : .word word ∈ tokens text := by simpa [inParens] using hinfix.subset hmem
  exact cleanWord_of_mem_tokens hin

/-- The conditions that survive being written and compiled are the printable ones, and every
condition that comes out of an expression is one of them. -/
theorem parse_render_iff :
    (∀ c : Condition, Condition.parse c.render = .ok c ↔ Printable c) ∧
      ∀ text c, Condition.parse text = .ok c → Printable c ∧ Condition.parse c.render = .ok c :=
  ⟨fun _ => ⟨printable_of_parse, parse_render⟩, fun _ _ h =>
    ⟨printable_of_parse h, parse_render (printable_of_parse h)⟩⟩

/-- What is left of an expression with an unclosed parenthesis survives a round trip. -/
theorem parse_render_of_unclosed :
    Condition.parse "q && (a && (b || ||)" =
        .ok (.group .and [.key "a", .group .or [.key "b", .key "||"]]) ∧
      Condition.parse (render (.group .and [.key "a", .group .or [.key "b", .key "||"]])) =
        .ok (.group .and [.key "a", .group .or [.key "b", .key "||"]]) := by
  have htokens : inParens (tokens "q && (a && (b || ||)") = [] ++ .opener :: tokensAll
      (["q", "&&"].map .word ++ .group [.word "a", .word "&&",
        .group [.word "b", .word "||", .word "||"]] :: []) := by decide
  have hparse : Condition.parse "q && (a && (b || ||)" =
      .ok (.group .and [.key "a", .group .or [.key "b", .key "||"]]) :=
    parse_of_opener htokens (by decide) (by decide)
  exact ⟨hparse, (parse_render_iff.2 _ _ hparse).2⟩

end KeyRules
