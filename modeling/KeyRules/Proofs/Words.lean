import KeyRules.Proofs.Balanced
import KeyRules.Proofs.RoundTrip

/-!
# KeyRules — the words of an expression

Compiling only finds out how the words of an expression belong together. The condition has them all,
once each and in order: the words at its leaves are its keys, and between them stand the symbols of
its groups. What is left out of an unbalanced expression is left out in front or behind.

* `words` — the words among tokens.
* `words_groupCondition?` — a condition has the words of the parts that it is the condition of.
* `keys_sublist_words` — the keys of a condition are among its words.
* `length_words` — a condition with `n` keys has `2 * n - 1` words, whatever its shape.
* `size_lt_of_printable` — and it has fewer nodes than twice its keys.
* `words_conserved` — the words of an expression and of what it compiles to.
-/

namespace KeyRules

open Expression
open KeyRules.Expression.Part (tokensAll)
open Condition (operandPart operandParts Filled sizeAll keysAll)

/-! ## Words -/

/-- The text of a token that is a word. -/
def Expression.Token.word? : Token → Option String
  | word text => some text
  | _ => none

/-- The words among tokens, in order. -/
def Expression.words (ts : List Token) : List String :=
  ts.filterMap Token.word?

variable {ts us : List Token} {text : String} {c : Condition} {cs : List Condition}
  {op : Operator}

theorem words_append : words (ts ++ us) = words ts ++ words us :=
  List.filterMap_append

theorem words_word_cons : words (.word text :: ts) = text :: words ts :=
  rfl

/-- Parentheses are no words. -/
theorem words_inParens : words (inParens ts) = words ts := by
  have hcloser : words [.closer] = [] := rfl
  show words (ts ++ [.closer]) = words ts
  rw [words_append, hcloser, List.append_nil]

/-- Parentheses are no words. -/
theorem words_group (ps : List Part) : words (Part.group ps).tokens = words (tokensAll ps) :=
  words_inParens

/-- Tokens that stand next to each other have words that do. -/
theorem words_infix (h : ts <:+: us) : words ts <:+: words us :=
  h.filterMap Token.word?

theorem mem_words_iff : text ∈ words ts ↔ .word text ∈ ts := by
  have hword (t : Token) : t.word? = some text ↔ t = .word text := by
    cases t <;> simp [Token.word?]
  simp [words, List.mem_filterMap, hword]

/-! ## The words of a condition -/

/-- As an operand a group stands in parentheses, which makes no difference to the words. -/
theorem words_operandPart (c : Condition) :
    words c.operandPart.tokens = words (tokensAll c.parts) := by
  cases c with
  | key name => rfl
  | group op operands => exact words_group _

theorem operandParts_cons (c : Condition) (hne : cs ≠ []) :
    operandParts op (c :: cs) = operandPart c :: .word op.symbol :: operandParts op cs := by
  cases cs with
  | nil => exact absurd rfl hne
  | cons d cs => rfl

/-- The words of operands: those of the first one, the symbol, those of the others. -/
theorem words_operandParts_cons (c : Condition) (hne : cs ≠ []) :
    words (tokensAll (operandParts op (c :: cs))) =
      words c.operandPart.tokens ++ op.symbol :: words (tokensAll (operandParts op cs)) := by
  rw [operandParts_cons c hne]
  show words (c.operandPart.tokens ++ .word op.symbol :: tokensAll (operandParts op cs)) = _
  rw [words_append, words_word_cons]

/-- A group of one operand has the words of the operand. -/
theorem words_operandParts_singleton (c : Condition) :
    words (tokensAll (operandParts op [c])) = words c.operandPart.tokens := by
  show words (c.operandPart.tokens ++ []) = _
  rw [List.append_nil]

mutual

/-- Compiling a part keeps its words. -/
theorem words_condition? : ∀ (p : Part) {c : Condition}, p.condition? = some c →
    words c.operandPart.tokens = words p.tokens
  | .word text, c, h => by
    cases h
    rfl
  | .group ps, c, h => by
    rw [words_operandPart, words_group]
    exact words_groupCondition? ps h

/-- The condition of parts has the words of the parts: no group or pair of parentheses that is
taken away had a word of its own, and each operator comes back where it was. -/
theorem words_groupCondition? : ∀ (ps : List Part) {c : Condition}, groupCondition? ps = some c →
    words (tokensAll c.parts) = words (tokensAll ps)
  | [], c, h => by simp [groupCondition?] at h
  | [p], c, h => by
    have hp := words_condition? p h
    rw [words_operandPart] at hp
    simpa [tokensAll] using hp
  | p :: .word symbol :: ps, c, h => by
    obtain ⟨op, d, ds, rfl, hd, hds, rfl⟩ := groupCondition?_cons_iff.mp h
    obtain ⟨hne, htail⟩ := words_termConditions? ps hds
    show words (tokensAll (operandParts op (d :: ds))) =
      words (p.tokens ++ .word op.symbol :: tokensAll ps)
    rw [words_operandParts_cons d hne, words_condition? p hd, htail, words_append,
      words_word_cons]
  | _ :: .group _ :: _, c, h => by simp [groupCondition?] at h

/-- The same for chains, where the operator comes back between the operands. -/
theorem words_termConditions? : ∀ (ps : List Part) {op : Operator} {cs : List Condition},
    termConditions? op ps = some cs →
    cs ≠ [] ∧ words (tokensAll (operandParts op cs)) = words (tokensAll ps)
  | [], op, cs, h => by simp [termConditions?] at h
  | [p], op, cs, h => by
    obtain ⟨c, hc, rfl⟩ := Option.map_eq_some_iff.mp h
    refine ⟨List.cons_ne_nil c [], ?_⟩
    rw [words_operandParts_singleton, words_condition? p hc]
    simp [tokensAll]
  | p :: .word symbol :: ps, op, cs, h => by
    obtain ⟨d, ds, rfl, hd, hds, rfl⟩ := termConditions?_cons_iff.mp h
    obtain ⟨hne, htail⟩ := words_termConditions? ps hds
    refine ⟨List.cons_ne_nil d ds, ?_⟩
    -- the operator of the text and the one that is written between the operands are the same
    show _ = words (p.tokens ++ .word op.symbol :: tokensAll ps)
    rw [words_operandParts_cons d hne, words_condition? p hd, htail, words_append,
      words_word_cons]
  | _ :: .group _ :: _, op, cs, h => by simp [termConditions?] at h

end

/-! ## Keys among the words -/

mutual

/-- The keys of a condition are among the words of its text, in the same order. -/
theorem keys_sublist_operand : ∀ c : Condition, c.keys.Sublist (words c.operandPart.tokens)
  | .key name => List.Sublist.refl [name]
  | .group op operands => by
    show (keysAll operands).Sublist (words (Part.group (operandParts op operands)).tokens)
    rw [words_group]
    exact keysAll_sublist_words op operands

theorem keysAll_sublist_words (op : Operator) : ∀ cs : List Condition,
    (keysAll cs).Sublist (words (tokensAll (operandParts op cs)))
  | [] => List.Sublist.refl []
  | [c] => by
    rw [words_operandParts_singleton]
    simpa [keysAll] using keys_sublist_operand c
  | c :: d :: cs => by
    have hhead := keys_sublist_operand c
    have htail := keysAll_sublist_words op (d :: cs)
    rw [words_operandParts_cons c (List.cons_ne_nil d cs)]
    -- the operator between two operands is no key
    exact hhead.append (htail.cons op.symbol)

end

/-- The keys of a condition are words of its text, in order. -/
theorem keys_sublist_words (c : Condition) : c.keys.Sublist (words (tokensAll c.parts)) :=
  words_operandPart c ▸ keys_sublist_operand c

/-! ## How many words -/

mutual

/-- A filled condition is written with one word for each key, and one less for the operators between
them. -/
theorem length_words_operand : ∀ {c : Condition}, Filled c →
    (words c.operandPart.tokens).length + 1 = 2 * c.keys.length
  | .key name, _ => rfl
  | .group op operands, h => by
    cases h with
    | group hne h =>
      show (words (Part.group (operandParts op operands)).tokens).length + 1 =
        2 * (keysAll operands).length
      rw [words_group]
      exact length_words_operands op hne h

theorem length_words_operands : ∀ (op : Operator) {cs : List Condition}, cs ≠ [] →
    (∀ c ∈ cs, Filled c) →
    (words (tokensAll (operandParts op cs))).length + 1 = 2 * (keysAll cs).length
  | op, [], hne, _ => absurd rfl hne
  | op, [c], _, h => by
    rw [words_operandParts_singleton, length_words_operand (h c (by simp))]
    simp [keysAll]
  | op, c :: d :: cs, _, h => by
    have hne : d :: cs ≠ [] := List.cons_ne_nil d cs
    have hhead := length_words_operand (h c (by simp))
    have htail := length_words_operands op hne fun e he => h e (List.mem_cons_of_mem c he)
    -- both counts lack one word, and the symbol between them makes up for one of the two
    rw [words_operandParts_cons c hne, keysAll, List.length_append, List.length_append,
      List.length_cons]
    omega

end

/-- A condition has a key more than it has symbols between its keys. -/
theorem length_words (h : Filled c) :
    (words (tokensAll c.parts)).length + 1 = 2 * c.keys.length :=
  words_operandPart c ▸ length_words_operand h

/-- The nodes of the operands, and one more for each operand, are no more than twice their keys. -/
theorem sizeAll_add_length_le (h : ∀ c ∈ cs, c.size < 2 * c.keys.length) :
    sizeAll cs + cs.length ≤ 2 * (keysAll cs).length := by
  induction cs with
  | nil => simp [sizeAll, keysAll]
  | cons c cs ih =>
    have hhead := h c (List.mem_cons_self ..)
    have htail := ih fun d hd => h d (List.mem_cons_of_mem c hd)
    rw [sizeAll, keysAll, List.length_cons, List.length_append]
    omega

/-- Groups of two operands or more are fewer than the keys. -/
theorem size_lt_of_printable (h : Printable c) : c.size < 2 * c.keys.length := by
  induction h with
  | key =>
    show 1 < 2 * 1
    omega
  | @group op operands hlen _ ih =>
    have hall := sizeAll_add_length_le ih
    rw [Condition.size, Condition.keys]
    omega

/-! ## Expressions -/

/-- The words of a compiled condition stand next to each other in the expression. -/
theorem words_of_parse (h : Condition.parse text = .ok c) :
    words (tokensAll c.parts) <:+: words (tokens text) := by
  -- the group that the condition comes from need not be the whole text
  obtain ⟨ps, hc, hinfix⟩ := (parse_eq_iff_verdict.mp h).infix_of_ok
  have hwords := words_infix hinfix
  rwa [words_inParens, ← words_groupCondition? ps hc] at hwords

/-- Of a balanced expression no word is left out. -/
theorem words_of_parse_balanced (h : Condition.parse text = .ok c)
    (hbalanced : Balanced (tokens text)) : words (tokensAll c.parts) = words (tokens text) := by
  obtain ⟨ps, hps⟩ := (balanced_iff (group_not_mem_tokens text)).mp hbalanced
  rw [parse_eq_iff_verdict, hps, verdict_inParens_ok_iff] at h
  rw [hps, words_groupCondition? ps h]

/-- The words of a condition's text are words that stood next to each other in the expression, in
the same order. They are all its words when it is balanced, and then their number tells the number
of keys and bounds the number of nodes. -/
theorem words_conserved (h : Condition.parse text = .ok c) :
    words (tokens c.render) <:+: words (tokens text) ∧
      (Balanced (tokens text) → words (tokens c.render) = words (tokens text) ∧
        (words (tokens text)).length + 1 = 2 * c.keys.length ∧
        c.size ≤ (words (tokens text)).length) := by
  have hprintable : Printable c := printable_of_parse h
  rw [tokens_render hprintable.clean]
  refine ⟨words_of_parse h, fun hbalanced => ?_⟩
  have hwords := words_of_parse_balanced h hbalanced
  have hlength := length_words hprintable.filled
  have hsize := size_lt_of_printable hprintable
  -- a tree of keys and operators with `k` keys has `2 * k - 1` words when written
  rw [hwords] at hlength
  exact ⟨hwords, hlength, by omega⟩

/-- Around single words the parentheses go, and an operand may look like an operator. An unclosed
parenthesis leaves words out, in front of those that are kept and behind them. -/
theorem words_conserved_of_redundant_parentheses :
    let kept : Condition := .group .and [.group .or [.key "a", .key "b"], .key "c", .key "||"]
    let left : Condition := .group .or [.key "a", .key "b"]
    Condition.parse "(a || (b)) && ((c)) && ||" = .ok kept ∧
      Balanced (tokens "(a || (b)) && ((c)) && ||") ∧
      words (tokens kept.render) = words (tokens "(a || (b)) && ((c)) && ||") ∧
      (words (tokens "(a || (b)) && ((c)) && ||")).length + 1 = 2 * 4 ∧ kept.size = 6 ∧
      Condition.parse "x && (a || b) (y" = .ok left ∧
      words (tokens left.render) <:+: words (tokens "x && (a || b) (y") := by
  intro kept left
  have hparts : tokens "(a || (b)) && ((c)) && ||" =
      tokensAll [.group [.word "a", .word "||", .group [.word "b"]], .word "&&",
        .group [.group [.word "c"]], .word "&&", .word "||"] := by decide
  have hbalanced : Balanced (tokens "(a || (b)) && ((c)) && ||") := hparts ▸ balanced_tokensAll _
  have hkept : Condition.parse "(a || (b)) && ((c)) && ||" = .ok kept :=
    parse_of_condition hparts rfl
  obtain ⟨hwords, hlength, -⟩ := (words_conserved hkept).2 hbalanced
  -- the last group with a closer is the answer, and what stands around it is dropped
  have hshape : inParens (tokens "x && (a || b) (y") = [] ++ .opener :: tokensAll
      (["x", "&&"].map .word ++ .group [.word "a", .word "||", .word "b"] ::
        [.group [.word "y"]]) := by decide
  have hleft : Condition.parse "x && (a || b) (y" = .ok left :=
    parse_of_opener hshape (by decide) rfl
  exact ⟨hkept, hbalanced, hwords, hlength, rfl, hleft, (words_conserved hleft).1⟩

end KeyRules
