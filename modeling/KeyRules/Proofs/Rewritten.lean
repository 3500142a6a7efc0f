import KeyRules.Proofs.LiteralText

/-!
# KeyRules — what is read and what is written for it

One spelling is read that is never written: an array in an array, which stands for a group joined
by "and". So writing what was read gives the value of the text back only when no array stands in
the place of a condition. In general it gives the value with every such array written out as an
object, at every level, and changes nothing else.

* `writtenOut` — a value with objects for the arrays that stand in the place of conditions.
* `toJson_of_ofJson?` — what is written for a condition that was read from a value.
* `toJson_of_ofLiteral` — the same for texts, and when nothing changes.
* `not_toJson_of_ofLiteral` — an array in an array is not given back.
-/

namespace KeyRules.Condition

mutual

/-- A value in which every array in the place of a condition is written out as the object that it
is read as. -/
def writtenOut : Json → Json
  | .array [.array items] => .object [(Operator.and.literalKey, .array (writtenOutAll items))]
  | .object [(name, .array items)] => .object [(name, .array (writtenOutAll items))]
  | value => value

/-- Several values, each written out. -/
def writtenOutAll : List Json → List Json
  | [] => []
  | item :: items => writtenOut item :: writtenOutAll items

end

variable {v : Json} {items : List Json} {c : Condition} {cs : List Condition} {text : String}

theorem writtenOutAll_eq_map (items : List Json) : writtenOutAll items = items.map writtenOut := by
  induction items with
  | nil => rfl
  | cons item items ih => rw [writtenOutAll, ih, List.map_cons]

/-- What is written for operands, if each one is written as its value. -/
theorem toJsonAll_of_ofJsonAll? (h : ofJsonAll? items = some cs)
    (hwritten : ∀ c ∈ cs, ∀ v, ofJson? v = some c → c.toJson = writtenOut v) :
    toJsonAll cs = writtenOutAll items := by
  rw [ofJsonAll?_eq_some_iff] at h
  rw [toJsonAll_eq_map, writtenOutAll_eq_map]
  induction h with
  | nil => rfl
  | @cons item c items cs hitem _ ih =>
    rw [List.map_cons, List.map_cons, hwritten c (by simp) item hitem]
    rw [ih fun d hd => hwritten d (List.mem_cons_of_mem c hd)]

/-- What is written for a condition is the value that it was read from, written out. -/
theorem toJson_of_ofJson? (h : ofJson? v = some c) : c.toJson = writtenOut v := by
  -- the condition determines the possible shapes of the value, so the induction is on it
  induction c using Condition.induct generalizing v with
  | key name =>
    rcases ofJson?_eq_some_iff.mp h with ⟨_, rfl, hc⟩ | ⟨_, _, _, _, _, _, hc⟩ | ⟨_, _, _, _, _, hc⟩
    · rw [hc]
      rfl
    · cases hc
    · cases hc
  | group op operands ih =>
    have hwritten : ∀ c ∈ operands, ∀ v, ofJson? v = some c → c.toJson = writtenOut v :=
      fun c hc v hv => ih c hc hv
    rcases ofJson?_eq_some_iff.mp h with ⟨_, _, hc⟩ | ⟨oq, items, cs, rfl, hcs, _, hc⟩ |
      ⟨items, cs, rfl, hcs, _, hc⟩
    · cases hc
    · -- an object keeps its name, and its items are written out
      obtain ⟨rfl, rfl⟩ := Condition.group.inj hc
      rw [toJson, writtenOut, toJsonAll_of_ofJsonAll? hcs hwritten]
    · -- an array takes the name of "and", whatever it stands in
      obtain ⟨rfl, rfl⟩ := Condition.group.inj hc
      rw [toJson, writtenOut, toJsonAll_of_ofJsonAll? hcs hwritten]

/-- A text from which a condition is read spells one value, with nothing but blanks behind. -/
theorem parse_of_ofLiteral (h : ofLiteral text = .ok c) :
    ∃ v, Json.parse Json.nestingLimit text =
        (.ok (v, true) : Except (Json.Fault LiteralFault) (Json × Bool)) ∧
      ofJson? v = some c := by
  cases hparse : (Json.parse Json.nestingLimit text :
      Except (Json.Fault LiteralFault) (Json × Bool)) with
  | error fault =>
    rw [ofLiteral, readLiteral, hparse] at h
    cases h
  | ok result =>
    obtain ⟨v, clean⟩ := result
    rw [ofLiteral, readLiteral, hparse] at h
    change ((ofJson v).mapError Json.Fault.refused >>= fun c => Json.wholly c clean).mapError _ = _
      at h
    cases hread : ofJson v with
    | error fault =>
      rw [hread] at h
      cases h
    | ok d =>
      rw [hread] at h
      -- what stands behind the value is looked at last
      cases clean with
      | false => cases h
      | true =>
        obtain rfl := Except.ok.inj h
        exact ⟨v, rfl, ofJson_eq_ok_iff.mp hread⟩

/-- What is written for the condition of a text is a text of its value written out, which is the
value itself when no array stands in the place of a condition, and only then. -/
theorem toJson_of_ofLiteral (h : ofLiteral text = .ok c) :
    ∃ v, Json.parse Json.nestingLimit text =
        (.ok (v, true) : Except (Json.Fault LiteralFault) (Json × Bool)) ∧
      Json.parse (2 * c.depth) c.toLiteral =
        (.ok (c.toJson, true) : Except (Json.Fault LiteralFault) (Json × Bool)) ∧
      c.toJson = writtenOut v ∧ (c.toJson = v ↔ ∀ items, ¬ ExpectedIn (.array items) v) := by
  obtain ⟨v, hparse, hread⟩ := parse_of_ofLiteral h
  refine ⟨v, hparse, ?_, toJson_of_ofJson? hread, ?_, ?_⟩
  · rw [toLiteral, Json.parse_render c.toJson (numberFree_toJson c), nesting_toJson,
      if_pos (Nat.le_refl _)]
  · -- nothing that is written has an array in the place of a condition
    rintro rfl
    exact not_expectedIn_toJson c
  · intro hplain
    exact (literalOf_iff.mp ((ofJson?_eq_some_iff_literalOf hplain).mp hread)).1.symm

/-- An array in an array inside a group of another kind is written out where it stands. -/
theorem toJson_of_nested_array :
    ofLiteral "\x7b\"$or\": [[[\"a\", \"b\"]], \"c\"]\x7d" =
        .ok (.group .or [.group .and [.key "a", .key "b"], .key "c"]) ∧
      ∃ v, Json.parse Json.nestingLimit "\x7b\"$or\": [[[\"a\", \"b\"]], \"c\"]\x7d" =
          (.ok (v, true) : Except (Json.Fault LiteralFault) (Json × Bool)) ∧
        toJson (.group .or [.group .and [.key "a", .key "b"], .key "c"]) = writtenOut v := by
  have hparse : Json.parse Json.nestingLimit "\x7b\"$or\": [[[\"a\", \"b\"]], \"c\"]\x7d" =
      (.ok (.object [("$or", .array [.array [.array [.string "a", .string "b"]], .string "c"])],
        true) : Except (Json.Fault LiteralFault) (Json × Bool)) := rfl
  have hread : ofLiteral "\x7b\"$or\": [[[\"a\", \"b\"]], \"c\"]\x7d" =
      .ok (.group .or [.group .and [.key "a", .key "b"], .key "c"]) :=
    (ofLiteral_eq_ok_iff hparse).mpr rfl
  obtain ⟨v, hparse, -, hwritten, -⟩ := toJson_of_ofLiteral hread
  exact ⟨hread, v, hparse, hwritten⟩

/-- An array in an array is read as a group, and what is written for it is another value. -/
theorem not_toJson_of_ofLiteral : ¬ ∀ (text : String) (c : Condition) (v : Json),
    ofLiteral text = .ok c →
    Json.parse Json.nestingLimit text =
      (.ok (v, true) : Except (Json.Fault LiteralFault) (Json × Bool)) → c.toJson = v := by
  intro hall
  have hparse : Json.parse Json.nestingLimit "[[\"a\"]]" =
      (.ok (.array [.array [.string "a"]], true) :
        Except (Json.Fault LiteralFault) (Json × Bool)) := rfl
  have hread : ofLiteral "[[\"a\"]]" = .ok (.group .and [.key "a"]) :=
    (ofLiteral_eq_ok_iff hparse).mpr rfl
  cases hall _ _ _ hread hparse

end KeyRules.Condition
