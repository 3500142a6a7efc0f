import KeyRules.Condition.Literal
import Mathlib.Data.List.Forall2

/-!
# KeyRules — which values are literals

A literal is a string, which is a key, or an object with one field, which is named for an operator
and holds the literals of the operands, at least one. Where no array stands in the place of
a condition, that is all that is read; otherwise an array in an array would be read as well. What
is refused is refused as a group without operands when the whole value is one, and as no condition
at all in every other case, a group without operands further down included.

* `LiteralOf` — the literals of a condition.
* `ExpectedIn` — where in a value a condition is expected.
* `ofJson?_eq_some_iff` — all that is read, the array in an array included.
* `ofJson?_eq_some_iff_literalOf` — only literals are read where no array takes their place.
* `ofLiteral_of_parse` — the answer to a text, given its value.
* `ofLiteral_iff_literalOf` — the texts that are accepted, and why the others are not.
-/

namespace KeyRules.Condition

/-- The value is the literal of the condition. -/
inductive LiteralOf : Json → Condition → Prop where
  | key (name : String) : LiteralOf (.string name) (.key name)
  | group (op : Operator) {items : List Json} {operands : List Condition} (hne : items ≠ [])
      (h : List.Forall₂ LiteralOf items operands) :
      LiteralOf (.object [(op.literalKey, .array items)]) (.group op operands)

/-- `w` stands in a value where a condition is expected: it is the whole value, or stands in an
operand of it. -/
inductive ExpectedIn (w : Json) : Json → Prop where
  | whole : ExpectedIn w w
  | operand (op : Operator) {items : List Json} {item : Json} (hitem : item ∈ items)
      (h : ExpectedIn w item) : ExpectedIn w (.object [(op.literalKey, .array items)])

variable {v : Json} {items : List Json} {op : Operator} {c : Condition} {cs : List Condition}

/-- In a group a condition is expected as the whole and within each operand. -/
theorem expectedIn_group_iff {w : Json} : ExpectedIn w (.object [(op.literalKey, .array items)]) ↔
    w = .object [(op.literalKey, .array items)] ∨ ∃ item ∈ items, ExpectedIn w item := by
  constructor
  · intro h
    -- the object must be a variable for the case split
    generalize hv : Json.object [(op.literalKey, .array items)] = v at h
    cases h with
    | whole => exact Or.inl rfl
    | operand oq hitem h =>
      simp only [Json.object.injEq, List.cons.injEq, Prod.mk.injEq, Json.array.injEq] at hv
      obtain rfl := hv.1.2
      exact Or.inr ⟨_, hitem, h⟩
  · rintro (rfl | ⟨item, hitem, h⟩)
    · exact .whole
    · exact .operand op hitem h

/-! ## What is read -/

theorem groupOf?_eq_some_iff : groupOf? op cs = some c ↔ cs ≠ [] ∧ c = .group op cs := by
  cases cs <;> simp [groupOf?, eq_comm]

/-- Items are read one by one, and all of them have to be conditions. -/
theorem ofJsonAll?_eq_some_iff :
    ofJsonAll? items = some cs ↔ List.Forall₂ (fun item c => ofJson? item = some c) items cs := by
  induction items generalizing cs with
  | nil => simp [ofJsonAll?, eq_comm]
  | cons item items ih =>
    rw [List.forall₂_cons_left_iff, ofJsonAll?]
    constructor
    · intro h
      split at h
      · rename_i d ds hd hds
        exact ⟨d, ds, hd, ih.mp hds, (Option.some.inj h).symm⟩
      · cases h
    · rintro ⟨d, ds, hd, hds, rfl⟩
      rw [hd, ih.mpr hds]

/-- A condition is read from a string, from a group, and from an array in an array. -/
theorem ofJson?_eq_some_iff : ofJson? v = some c ↔
    (∃ name, v = .string name ∧ c = .key name) ∨
    (∃ op items cs, v = .object [(Operator.literalKey op, .array items)] ∧
      ofJsonAll? items = some cs ∧ cs ≠ [] ∧ c = .group op cs) ∨
    (∃ items cs, v = .array [.array items] ∧
      ofJsonAll? items = some cs ∧ cs ≠ [] ∧ c = .group .and cs) := by
  constructor
  · intro h
    -- the four branches of reading: a text, a field with an operator, an array in an array, a fault
    unfold ofJson? at h
    split at h
    · exact Or.inl ⟨_, rfl, (Option.some.inj h).symm⟩
    · rename_i name items
      split at h
      · rename_i op cs hop hcs
        obtain rfl : name = op.literalKey := Operator.ofLiteralKey?_eq_some_iff.mp hop
        obtain ⟨hne, rfl⟩ := groupOf?_eq_some_iff.mp h
        exact Or.inr (Or.inl ⟨op, items, cs, rfl, hcs, hne, rfl⟩)
      · cases h
    · rename_i items
      split at h
      · rename_i cs hcs
        obtain ⟨hne, rfl⟩ := groupOf?_eq_some_iff.mp h
        exact Or.inr (Or.inr ⟨items, cs, rfl, hcs, hne, rfl⟩)
      · cases h
    · cases h
  · rintro (⟨name, rfl, rfl⟩ | ⟨op, items, cs, rfl, hcs, hne, rfl⟩ |
      ⟨items, cs, rfl, hcs, hne, rfl⟩)
    · rfl
    · have hop : Operator.ofLiteralKey? op.literalKey = some op :=
        Operator.ofLiteralKey?_eq_some_iff.mpr rfl
      simp only [ofJson?, hop, hcs]
      exact groupOf?_eq_some_iff.mpr ⟨hne, rfl⟩
    · simp only [ofJson?, hcs]
      exact groupOf?_eq_some_iff.mpr ⟨hne, rfl⟩

/-- Two relations that agree on the members of two lists relate the lists alike. -/
theorem forall₂_congr_of_mem {α β : Type} {R S : α → β → Prop} {xs : List α} {ys : List β}
    (h : ∀ x ∈ xs, ∀ y ∈ ys, (R x y ↔ S x y)) : List.Forall₂ R xs ys ↔ List.Forall₂ S xs ys := by
  rw [List.forall₂_iff_zip, List.forall₂_iff_zip]
  refine and_congr_right fun _ => ⟨fun hR x y hxy => ?_, fun hS x y hxy => ?_⟩
  · have hmem := List.of_mem_zip hxy
    exact (h x hmem.1 y hmem.2).mp (hR hxy)
  · have hmem := List.of_mem_zip hxy
    exact (h x hmem.1 y hmem.2).mpr (hS hxy)

/-- A member of the second list has a partner in the first. -/
theorem forall₂_exists_left {α β : Type} {R : α → β → Prop} {xs : List α} {ys : List β} {y : β}
    (h : List.Forall₂ R xs ys) (hy : y ∈ ys) : ∃ x ∈ xs, R x y := by
  induction h with
  | nil => exact absurd hy List.not_mem_nil
  | cons hpair _ ih =>
    rcases List.mem_cons.mp hy with rfl | hy
    · exact ⟨_, List.mem_cons_self, hpair⟩
    · obtain ⟨x, hx, hR⟩ := ih hy
      exact ⟨x, List.mem_cons_of_mem _ hx, hR⟩

/-- Where no array takes the place of a condition, only literals are read. The exception is the
array in an array, which is read as a group. -/
theorem ofJson?_eq_some_iff_literalOf (hplain : ∀ items, ¬ ExpectedIn (.array items) v) :
    ofJson? v = some c ↔ LiteralOf v c := by
  -- A condition determines the shape of the values it is read from, so the induction is on it.
  induction c using Condition.induct generalizing v with
  | key name =>
    rw [ofJson?_eq_some_iff]
    constructor
    · rintro (⟨_, rfl, hc⟩ | ⟨_, _, _, _, _, _, hc⟩ | ⟨_, _, _, _, _, hc⟩)
      · obtain rfl := Condition.key.inj hc
        exact .key name
      · cases hc
      · cases hc
    · intro h
      cases h
      exact Or.inl ⟨name, rfl, rfl⟩
  | group op operands ih =>
    -- The operands of a group are places of conditions too, so no array is among them.
    have hoperands (items : List Json)
        (hplain : ∀ w, ¬ ExpectedIn (.array w) (.object [(op.literalKey, .array items)])) :
        ofJsonAll? items = some operands ↔ List.Forall₂ LiteralOf items operands :=
      ofJsonAll?_eq_some_iff.trans <| forall₂_congr_of_mem fun item hitem d hd =>
        ih d hd fun w hw => hplain w (.operand op hitem hw)
    rw [ofJson?_eq_some_iff]
    constructor
    · -- An array in an array would be read as well, but none is expected here.
      rintro (⟨_, _, hc⟩ | ⟨oq, items, cs, rfl, hcs, hne, hc⟩ | ⟨items, _, rfl, _⟩)
      · cases hc
      · obtain ⟨rfl, rfl⟩ := Condition.group.inj hc
        have h : List.Forall₂ LiteralOf items operands := (hoperands items hplain).mp hcs
        refine .group op (fun hnil => hne ?_) h
        rw [hnil] at h
        exact List.forall₂_nil_left_iff.mp h
      · exact absurd ExpectedIn.whole (hplain _)
    · intro h
      cases h with
      | @group _ items _ hne h =>
        refine Or.inr (Or.inl ⟨op, items, operands, rfl, (hoperands items hplain).mpr h, ?_, rfl⟩)
        intro hnil
        rw [hnil] at h
        exact hne (List.forall₂_nil_right_iff.mp h)

/-! ## What is refused, and why -/

/-- A group without operands is an operator field with an empty array, or an array that holds an
empty array. -/
theorem emptyGroup?_eq_some_iff : emptyGroup? v = some op ↔
    v = .object [(op.literalKey, .array [])] ∨ v = .array [.array []] ∧ op = .and := by
  unfold emptyGroup?
  split
  · simp [Operator.ofLiteralKey?_eq_some_iff]
  · simp [eq_comm]
  · grind

/-- No condition is read from a group without operands. -/
theorem ofJson?_of_emptyGroup? (h : emptyGroup? v = some op) : ofJson? v = none := by
  rcases emptyGroup?_eq_some_iff.mp h with rfl | ⟨rfl, rfl⟩
  · cases op <;> rfl
  · rfl

theorem ofJson_eq_ok_iff : ofJson v = .ok c ↔ ofJson? v = some c := by
  unfold ofJson
  split <;> simp_all

/-- A missing operand is reported for an empty group and for nothing else. -/
theorem ofJson_eq_noOperand_iff : ofJson v = .error (.noOperand op) ↔ emptyGroup? v = some op := by
  constructor
  · intro h
    unfold ofJson at h
    split at h <;> simp_all
  · intro h
    rw [ofJson, ofJson?_of_emptyGroup? h, h]

/-- Any other value that is no condition has one common error. -/
theorem ofJson_eq_noCondition_iff :
    ofJson v = .error .noCondition ↔ ofJson? v = none ∧ emptyGroup? v = none := by
  unfold ofJson
  split <;> simp_all

/-- The answer to a text that spells one value. -/
theorem ofLiteral_of_parse {text : String}
    (h : Json.parse Json.nestingLimit text =
      (.ok (v, true) : Except (Json.Fault LiteralFault) (Json × Bool))) :
    ofLiteral text = (ofJson v).mapError fun fault => .unreadable fault.message := by
  rw [ofLiteral, readLiteral, h]
  change ((ofJson v).mapError Json.Fault.refused >>= fun c => Json.wholly c true).mapError _ = _
  cases ofJson v with
  | ok c => rfl
  | error fault => rfl

/-- The texts of two refusals differ. -/
theorem message_inj {f g : LiteralFault} : f.message = g.message ↔ f = g := by
  refine ⟨fun h => ?_, congrArg _⟩
  revert h
  rcases f with _ | op <;> rcases g with _ | oq
  · exact fun _ => rfl
  · cases oq <;> decide
  · cases op <;> decide
  · cases op <;> cases oq <;> decide

/-! ## Texts -/

variable {text : String}

/-- For a text that is one JSON value, what is read is what the value stands for. -/
theorem ofLiteral_eq_ok_iff (h : Json.parse Json.nestingLimit text =
      (.ok (v, true) : Except (Json.Fault LiteralFault) (Json × Bool))) :
    ofLiteral text = .ok c ↔ ofJson? v = some c := by
  rw [ofLiteral_of_parse h, ← ofJson_eq_ok_iff]
  cases ofJson v <;> simp [Except.mapError]

/-- For such a text the error is that of the value. -/
theorem ofLiteral_eq_error_iff {fault : LiteralFault} (h : Json.parse Json.nestingLimit text =
      (.ok (v, true) : Except (Json.Fault LiteralFault) (Json × Bool))) :
    ofLiteral text = .error (.unreadable fault.message) ↔ ofJson v = .error fault := by
  rw [ofLiteral_of_parse h]
  cases ofJson v <;> simp [Except.mapError, message_inj]

/-- A text whose value has no array in the place of a condition is accepted when the value is
a literal. It is refused for want of an operand when the whole value is a group without operands,
and as no condition in every other case. -/
theorem ofLiteral_iff_literalOf
    (hparse : Json.parse Json.nestingLimit text =
      (.ok (v, true) : Except (Json.Fault LiteralFault) (Json × Bool)))
    (hplain : ∀ items, ¬ ExpectedIn (.array items) v) :
    (∀ c, ofLiteral text = .ok c ↔ LiteralOf v c) ∧
    (ofLiteral text = .error (.unreadable "Operator '$and' needs at least one operand") ↔
      v = .object [("$and", .array [])]) ∧
    (ofLiteral text = .error (.unreadable "Operator '$or' needs at least one operand") ↔
      v = .object [("$or", .array [])]) ∧
    (ofLiteral text =
        .error (.unreadable "data did not match any variant of untagged enum Literal") ↔
      (∀ c, ¬ LiteralOf v c) ∧
        v ≠ .object [("$and", .array [])] ∧ v ≠ .object [("$or", .array [])]) := by
  -- an array in an array could be an empty group too, but there is none
  have hempty (op : Operator) :
      emptyGroup? v = some op ↔ v = .object [(op.literalKey, .array [])] := by
    rw [emptyGroup?_eq_some_iff]
    refine or_iff_left ?_
    rintro ⟨rfl, -⟩
    exact hplain _ .whole
  have hnoOperand (op : Operator) :
      ofLiteral text = .error (.unreadable (LiteralFault.noOperand op).message) ↔
        v = .object [(op.literalKey, .array [])] :=
    (ofLiteral_eq_error_iff hparse).trans (ofJson_eq_noOperand_iff.trans (hempty op))
  -- the common error is what is left when the value is neither a condition nor an empty group
  have hnoLiteral : ofJson? v = none ↔ ∀ c, ¬ LiteralOf v c := by
    simp only [Option.eq_none_iff_forall_ne_some, ne_eq, ofJson?_eq_some_iff_literalOf hplain]
  have hnoEmpty : emptyGroup? v = none ↔
      v ≠ .object [("$and", .array [])] ∧ v ≠ .object [("$or", .array [])] := by
    rw [Option.eq_none_iff_forall_ne_some]
    refine ⟨fun h => ⟨mt (hempty .and).mpr (h .and), mt (hempty .or).mpr (h .or)⟩, ?_⟩
    rintro ⟨hand, hor⟩ op hop
    cases op with
    | and => exact hand ((hempty .and).mp hop)
    | or => exact hor ((hempty .or).mp hop)
  refine ⟨fun c => (ofLiteral_eq_ok_iff hparse).trans (ofJson?_eq_some_iff_literalOf hplain),
    hnoOperand .and, hnoOperand .or, ?_⟩
  rw [← hnoLiteral, ← hnoEmpty]
  exact (ofLiteral_eq_error_iff hparse).trans ofJson_eq_noCondition_iff

/-- A group without operands further down, with blanks in the text. -/
theorem ofLiteral_of_nested_empty_group :
    ofLiteral "\x7b \"$and\": [\"a\", \x7b\"$or\": []\x7d] \x7d " =
      .error (.unreadable "data did not match any variant of untagged enum Literal") := by
  have hparse : Json.parse Json.nestingLimit "\x7b \"$and\": [\"a\", \x7b\"$or\": []\x7d] \x7d " =
      (.ok (.object [("$and", .array [.string "a", .object [("$or", .array [])]])], true) :
        Except (Json.Fault LiteralFault) (Json × Bool)) := rfl
  have hplain (items : List Json) : ¬ ExpectedIn (.array items)
      (.object [(Operator.and.literalKey,
        .array [.string "a", .object [(Operator.or.literalKey, .array [])]])]) := by
    simp only [expectedIn_group_iff, List.mem_cons, List.not_mem_nil]
    rintro (h | ⟨_, rfl | rfl | h, hitem⟩)
    · cases h
    · cases hitem
    · rcases expectedIn_group_iff.mp hitem with h | ⟨_, h, _⟩
      · cases h
      · cases h
    · exact h
  refine (ofLiteral_iff_literalOf hparse hplain).2.2.2.mpr ⟨fun c h => ?_, by simp, by simp⟩
  have hread := (ofJson?_eq_some_iff_literalOf hplain).mpr h
  cases hread

end KeyRules.Condition
