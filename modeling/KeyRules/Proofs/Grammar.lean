import KeyRules.Expression.Group
import KeyRules.Proofs.Nesting

/-!
# KeyRules — the grammar of expressions

An expression is a term, or several terms with one and the same operator between them. A term is a
word or an expression in parentheses. `Derives` states this as a grammar on tokens that builds
a condition, and `groupCondition?` reads the condition off the parts of a text. A group of parts
that has no condition of its own, whatever its inner groups are, has a **fault**.

* `Term`, `Derives`, `Terms` — the grammar.
* `Part.condition?`, `groupCondition?`, `fault` — conditions and faults of parts.
* `groupCondition?_cons_iff`, `termConditions?_cons_iff` — what a condition of several parts needs.
* `derives_tokensAll_iff` — the grammar derives the condition of the parts and no other.
* `groupCondition?_eq` — a group has a condition when it has no fault and its operands have
  conditions.
* `fault_of_groupCondition?` — parts with a condition hold no faulty group.
-/

namespace KeyRules.Expression

open KeyRules.Expression.Part (tokensAll groupsAll)

/-! ## Derivations -/

mutual

/-- A word, or an expression in parentheses. -/
inductive Term : List Token → Condition → Prop where
  | word (text : String) : Term [.word text] (.key text)
  | parens {ts : List Token} {c : Condition} (h : Derives ts c) : Term (inParens ts) c

/-- An expression and its condition. -/
inductive Derives : List Token → Condition → Prop where
  | term {ts : List Token} {c : Condition} (h : Term ts c) : Derives ts c
  | group {op : Operator} {ts us : List Token} {c : Condition} {cs : List Condition}
      (h : Term ts c) (hs : Terms op us cs) :
      Derives (ts ++ .word op.symbol :: us) (.group op (c :: cs))

/-- One or more terms with an operator between them. -/
inductive Terms : Operator → List Token → List Condition → Prop where
  | last {op : Operator} {ts : List Token} {c : Condition} (h : Term ts c) : Terms op ts [c]
  | more {op : Operator} {ts us : List Token} {c : Condition} {cs : List Condition}
      (h : Term ts c) (hs : Terms op us cs) :
      Terms op (ts ++ .word op.symbol :: us) (c :: cs)

end

/-! ## Conditions of parts -/

mutual

/-- The condition of a part. -/
def Part.condition? : Part → Option Condition
  | .word text => some (.key text)
  | .group parts => groupCondition? parts

/-- The condition of a group with the given parts. -/
def groupCondition? : List Part → Option Condition
  | [] => none
  | [p] => p.condition?
  | p :: .word symbol :: ps =>
    match Operator.ofSymbol? symbol with
    | none => none
    | some op =>
      match p.condition?, termConditions? op ps with
      | some c, some cs => some (.group op (c :: cs))
      | _, _ => none
  | _ :: .group _ :: _ => none

/-- The conditions of one or more parts with an operator between them. -/
def termConditions? (op : Operator) : List Part → Option (List Condition)
  | [] => none
  | [p] => p.condition?.map fun c => [c]
  | p :: .word symbol :: ps =>
    if symbol = op.symbol then
      match p.condition?, termConditions? op ps with
      | some c, some cs => some (c :: cs)
      | _, _ => none
    else none
  | _ :: .group _ :: _ => none

end

variable {p : Part} {symbol : String} {op : Operator} {ps : List Part} {c : Condition}
  {cs : List Condition}

/-- A group of several parts has the condition of its operands, joined by its first joiner. -/
theorem groupCondition?_cons_iff : groupCondition? (p :: .word symbol :: ps) = some c ↔
    ∃ (op : Operator) (d : Condition) (ds : List Condition), symbol = op.symbol ∧
      p.condition? = some d ∧ termConditions? op ps = some ds ∧ c = .group op (d :: ds) := by
  constructor
  · intro h
    unfold groupCondition? at h
    -- the joiner names an operator, and all operands have conditions
    split at h
    · cases h
    · rename_i op hop
      have hsymbol : symbol = op.symbol := Operator.ofSymbol?_eq_some_iff.mp hop
      split at h
      · rename_i d ds hd hds
        exact ⟨op, d, ds, hsymbol, hd, hds, (Option.some.inj h).symm⟩
      · cases h
  · rintro ⟨op, d, ds, rfl, hd, hds, rfl⟩
    have hop : Operator.ofSymbol? op.symbol = some op := Operator.ofSymbol?_eq_some_iff.mpr rfl
    simp [groupCondition?, hop, hd, hds]

/-- A chain has a condition for each operand if its first operator is the one asked for and the rest
of it has them too. -/
theorem termConditions?_cons_iff : termConditions? op (p :: .word symbol :: ps) = some cs ↔
    ∃ (d : Condition) (ds : List Condition), symbol = op.symbol ∧
      p.condition? = some d ∧ termConditions? op ps = some ds ∧ cs = d :: ds := by
  constructor
  · intro h
    unfold termConditions? at h
    split at h
    · rename_i hsymbol
      split at h
      · rename_i d ds hd hds
        exact ⟨d, ds, hsymbol, hd, hds, (Option.some.inj h).symm⟩
      · cases h
    · cases h
  · rintro ⟨d, ds, rfl, hd, hds, rfl⟩
    simp [termConditions?, hd, hds]

/-! ## The grammar derives the conditions of parts -/

mutual

/-- A term of the grammar is the text of a part, whose condition is that of the term. -/
theorem Term.parts : ∀ {ts : List Token} {c : Condition}, Term ts c →
    ∃ p : Part, ts = p.tokens ∧ p.condition? = some c
  | _, _, .word text => ⟨.word text, rfl, rfl⟩
  | _, _, .parens h => by
    obtain ⟨ps, rfl, hc⟩ := Derives.parts h
    exact ⟨.group ps, rfl, hc⟩

/-- What the grammar derives is the text of parts, which have the same condition. -/
theorem Derives.parts : ∀ {ts : List Token} {c : Condition}, Derives ts c →
    ∃ ps, ts = tokensAll ps ∧ groupCondition? ps = some c
  | _, _, .term h => by
    obtain ⟨p, rfl, hc⟩ := Term.parts h
    exact ⟨[p], by simp [tokensAll], hc⟩
  | _, _, @Derives.group op _ _ _ _ h hs => by
    obtain ⟨p, rfl, hc⟩ := Term.parts h
    obtain ⟨ps, rfl, hcs⟩ := Terms.parts hs
    exact ⟨p :: .word op.symbol :: ps, by simp [tokensAll, Part.tokens],
      groupCondition?_cons_iff.mpr ⟨op, _, _, rfl, hc, hcs, rfl⟩⟩

/-- The terms of a chain and the operators between them are the texts of parts. -/
theorem Terms.parts : ∀ {op : Operator} {ts : List Token} {cs : List Condition},
    Terms op ts cs → ∃ ps, ts = tokensAll ps ∧ termConditions? op ps = some cs
  | _, _, _, .last h => by
    obtain ⟨p, rfl, hc⟩ := Term.parts h
    exact ⟨[p], by simp [tokensAll], by simp [termConditions?, hc]⟩
  | op, _, _, .more h hs => by
    obtain ⟨p, rfl, hc⟩ := Term.parts h
    obtain ⟨ps, rfl, hcs⟩ := Terms.parts hs
    exact ⟨p :: .word op.symbol :: ps, by simp [tokensAll, Part.tokens],
      termConditions?_cons_iff.mpr ⟨_, _, rfl, hc, hcs, rfl⟩⟩

end

mutual

/-- A part with a condition is a term of the grammar. -/
theorem Part.term : ∀ (p : Part) {c : Condition}, p.condition? = some c → Term p.tokens c
  | .word text, c, h => by
    cases h
    exact Term.word text
  | .group ps, c, h => Term.parens (derives_tokensAll ps h)

/-- Parts with a condition are derived by the grammar. -/
theorem derives_tokensAll : ∀ (ps : List Part) {c : Condition},
    groupCondition? ps = some c → Derives (tokensAll ps) c
  | [], c, h => by simp [groupCondition?] at h
  | [p], c, h => by
    simpa [tokensAll] using Derives.term (p.term h)
  | p :: .word symbol :: ps, c, h => by
    obtain ⟨op, d, ds, rfl, hd, hds, rfl⟩ := groupCondition?_cons_iff.mp h
    exact Derives.group (p.term hd) (terms_tokensAll ps hds)
  | _ :: .group _ :: _, c, h => by simp [groupCondition?] at h

/-- The parts of a chain are the terms of a chain of the grammar. -/
theorem terms_tokensAll : ∀ (ps : List Part) {op : Operator} {cs : List Condition},
    termConditions? op ps = some cs → Terms op (tokensAll ps) cs
  | [], op, cs, h => by simp [termConditions?] at h
  | [p], op, cs, h => by
    obtain ⟨c, hc, rfl⟩ := Option.map_eq_some_iff.mp h
    simpa [tokensAll] using Terms.last (p.term hc)
  | p :: .word symbol :: ps, op, cs, h => by
    obtain ⟨d, ds, rfl, hd, hds, rfl⟩ := termConditions?_cons_iff.mp h
    exact Terms.more (p.term hd) (terms_tokensAll ps hds)
  | _ :: .group _ :: _, op, cs, h => by simp [termConditions?] at h

end

/-- The grammar derives the condition of the parts of a text and no other. -/
theorem derives_tokensAll_iff : Derives (tokensAll ps) c ↔ groupCondition? ps = some c := by
  constructor
  · intro h
    obtain ⟨qs, hqs, hc⟩ := h.parts
    rwa [tokensAll_injective hqs]
  · exact derives_tokensAll ps

/-- The grammar gives a text one condition at most, because the parts of a text are its own. -/
theorem Derives.unique {ts : List Token} {c d : Condition} (hc : Derives ts c)
    (hd : Derives ts d) : c = d := by
  obtain ⟨ps, rfl, h⟩ := hc.parts
  exact Option.some.inj (h.symm.trans (derives_tokensAll_iff.mp hd))

/-! ## Faults -/

namespace Part

/-- A part as an error text shows it. -/
def label : Part → String
  | word text => text
  | group _ => "(...)"

/-- Whether two parts at different places differ: two groups always do, whatever they hold. -/
def differs : Part → Part → Bool
  | word a, word b => a ≠ b
  | _, _ => true

/-- The operator that a part names. -/
def operator? : Part → Option Operator
  | word text => Operator.ofSymbol? text
  | group _ => none

end Part

/-- What is wrong with the items at the odd places of a group. -/
def joinerFault (joiner : Part) (others : List Part) : Option Error :=
  match others.find? joiner.differs with
  | some other => some (.mixedOperators joiner.label other.label)
  | none =>
    match joiner.operator? with
    | some _ => none
    | none => some (.unknownOperator joiner.label)

/-- What is wrong with a group that holds the given parts, if its inner groups are left aside. -/
def fault : List Part → Option Error
  | [] => some (.evenItems 0)
  | [_] => none
  | _ :: joiner :: rest =>
    if rest.length % 2 = 0 then some (.evenItems (rest.length + 2))
    else joinerFault joiner (odds rest)

/-- A part names an operator only as the word that is its symbol. -/
theorem Part.operator?_eq_some_iff {p : Part} {op : Operator} :
    p.operator? = some op ↔ p = .word op.symbol := by
  cases p with
  | word text => simp [Part.operator?, Operator.ofSymbol?_eq_some_iff]
  | group ps => simp [Part.operator?]

theorem Part.differs_word_eq_false_iff {p : Part} {text : String} :
    (Part.word text).differs p = false ↔ p = .word text := by
  cases p with
  | word a => simp [Part.differs, eq_comm (a := a)]
  | group ps => simp [Part.differs]

/-- Joiners are without a fault if they are all the symbol of one operator. -/
theorem joinerFault_eq_none_iff {joiner : Part} {others : List Part} :
    joinerFault joiner others = none ↔
      ∃ op : Operator, joiner = .word op.symbol ∧ ∀ q ∈ others, q = .word op.symbol := by
  constructor
  · intro h
    unfold joinerFault at h
    split at h
    · cases h
    · -- no joiner differs from the first, which names an operator
      rename_i hfind
      split at h
      · rename_i op hop
        obtain rfl := Part.operator?_eq_some_iff.mp hop
        refine ⟨op, rfl, fun q hq => Part.differs_word_eq_false_iff.mp ?_⟩
        simpa using List.find?_eq_none.mp hfind q hq
      · cases h
  · rintro ⟨op, rfl, hall⟩
    have hfind : others.find? (Part.word op.symbol).differs = none := by
      rw [List.find?_eq_none]
      intro q hq
      simp [Part.differs_word_eq_false_iff.mpr (hall q hq)]
    simp [joinerFault, hfind, Part.operator?_eq_some_iff.mpr rfl]

/-- A group of several parts is without fault when one operator stands at all odd places. -/
theorem fault_eq_none_iff {p joiner : Part} {rest : List Part} :
    fault (p :: joiner :: rest) = none ↔ rest.length % 2 = 1 ∧
      ∃ op : Operator, joiner = .word op.symbol ∧ ∀ q ∈ odds rest, q = .word op.symbol := by
  rw [fault, ← joinerFault_eq_none_iff]
  split
  · simp only [reduceCtorEq, false_iff, not_and]
    omega
  · simp only [iff_and_self]
    omega

/-- Parts with one operator between them have conditions when the operands have. -/
theorem termConditions?_eq {op : Operator} {ps : List Part} (hodd : ps.length % 2 = 1)
    (hall : ∀ q ∈ odds ps, q = .word op.symbol) :
    termConditions? op ps = (evens ps).mapM Part.condition? := by
  -- two parts at a time, an operand and the joiner behind it
  induction ps using evens.induct with
  | case1 => simp at hodd
  | case2 p => cases h : p.condition? <;> simp [termConditions?, evens, h]
  | case3 p q ps ih =>
    obtain rfl : q = .word op.symbol := hall q (by simp [odds])
    have hps : ps.length % 2 = 1 := by
      simp only [List.length_cons] at hodd
      omega
    have hrest := ih hps fun q hq => hall q (by simp [odds, hq])
    cases hp : p.condition? <;> cases hcs : (evens ps).mapM Part.condition? <;>
      simp [termConditions?, evens, hrest, hp, hcs]

/-- A group has a condition when it has no fault and its operands have conditions. -/
theorem groupCondition?_eq {p : Part} {op : Operator} {ps : List Part}
    (hodd : ps.length % 2 = 1) (hall : ∀ q ∈ odds ps, q = .word op.symbol) :
    groupCondition? (p :: .word op.symbol :: ps) =
      ((p :: evens ps).mapM Part.condition?).map (.group op) := by
  have hop : Operator.ofSymbol? op.symbol = some op := Operator.ofSymbol?_eq_some_iff.mpr rfl
  cases hp : p.condition? <;> cases hcs : (evens ps).mapM Part.condition? <;>
    simp [groupCondition?, hop, termConditions?_eq hodd hall, hp, hcs]

mutual

/-- A part with a condition has no fault anywhere inside. -/
theorem Part.fault_of_mem_groups : ∀ (p : Part) {c : Condition}, p.condition? = some c →
    ∀ qs ∈ p.groups, fault qs = none
  | .word _, _, _, qs, hqs => by simp [Part.groups] at hqs
  | .group ps, c, h, qs, hqs => by
    obtain ⟨hps, hall⟩ := fault_of_groupCondition? ps h
    rcases List.mem_cons.mp hqs with rfl | hmem
    · exact hps
    · exact hall qs hmem

/-- A group with a condition has no fault, and neither has a group inside it. -/
theorem fault_of_groupCondition? : ∀ (ps : List Part) {c : Condition},
    groupCondition? ps = some c → fault ps = none ∧ ∀ qs ∈ groupsAll ps, fault qs = none
  | [], _, h => by simp [groupCondition?] at h
  | [p], _, h => by
    refine ⟨rfl, ?_⟩
    simpa [groupsAll] using p.fault_of_mem_groups h
  | p :: .word symbol :: ps, _, h => by
    obtain ⟨op, d, ds, rfl, hd, hds, -⟩ := groupCondition?_cons_iff.mp h
    obtain ⟨hodd, hjoin, hall⟩ := fault_of_termConditions? ps hds
    refine ⟨fault_eq_none_iff.mpr ⟨hodd, op, rfl, hjoin⟩, ?_⟩
    -- the joiner is a word and holds no group
    intro qs hqs
    rcases List.mem_append.mp hqs with hp | hps
    · exact p.fault_of_mem_groups hd qs hp
    · exact hall qs hps
  | _ :: .group _ :: _, _, h => by simp [groupCondition?] at h

/-- The same for the parts of a chain, with their number and their joiners. -/
theorem fault_of_termConditions? : ∀ (ps : List Part) {op : Operator} {cs : List Condition},
    termConditions? op ps = some cs → ps.length % 2 = 1 ∧
      (∀ q ∈ odds ps, q = .word op.symbol) ∧ ∀ qs ∈ groupsAll ps, fault qs = none
  | [], _, _, h => by simp [termConditions?] at h
  | [p], _, _, h => by
    obtain ⟨c, hc, -⟩ := Option.map_eq_some_iff.mp h
    refine ⟨rfl, by simp [odds], ?_⟩
    simpa [groupsAll] using p.fault_of_mem_groups hc
  | p :: .word symbol :: ps, op, _, h => by
    obtain ⟨d, ds, rfl, hd, hds, -⟩ := termConditions?_cons_iff.mp h
    obtain ⟨hodd, hjoin, hall⟩ := fault_of_termConditions? ps hds
    -- an operand and a joiner in front keep the number of parts odd
    have hodd' : (p :: .word op.symbol :: ps).length % 2 = 1 := by
      rw [List.length_cons, List.length_cons]
      omega
    refine ⟨hodd', by simpa [odds] using hjoin, ?_⟩
    intro qs hqs
    rcases List.mem_append.mp hqs with hp | hps
    · exact p.fault_of_mem_groups hd qs hp
    · exact hall qs hps
  | _ :: .group _ :: _, _, _, h => by simp [termConditions?] at h

end

end KeyRules.Expression
