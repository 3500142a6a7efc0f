import KeyRules.Proofs.JsonText
import KeyRules.Proofs.LiteralForm

/-!
# KeyRules — literal text and back

The literal text of a condition reads back as the condition when every group in it has an operand
and it is not too deep: a group opens an object and an array, and no more than 127 of them may be
open at once. Whatever the keys are, nothing else is ever read from such a text.

* `Filled` — conditions in which every group has an operand.
* `literalOf_iff` — the literal of a condition is the one that is written, and only a filled
  condition has one.
* `nesting_toJson` — each group counts as two levels of nesting.
* `ofLiteral_toLiteral_eq` — what is read from the text that was written.
* `ofLiteral_toLiteral_iff` — the conditions that survive a round trip.
* `toLiteral_inj` — a text belongs to one condition, also where it is refused.
-/

namespace KeyRules

theorem Operator.literalKey_injective {op oq : Operator} (h : op.literalKey = oq.literalKey) :
    op = oq :=
  Option.some.inj <|
    (ofLiteralKey?_eq_some_iff.mpr rfl).symm.trans (ofLiteralKey?_eq_some_iff.mpr h)

namespace Condition

/-- Every group has an operand. -/
inductive Filled : Condition → Prop where
  | key (name : String) : Filled (.key name)
  | group {op : Operator} {operands : List Condition} (hne : operands ≠ [])
      (h : ∀ c ∈ operands, Filled c) : Filled (.group op operands)

theorem toJsonAll_eq_map (cs : List Condition) : toJsonAll cs = cs.map toJson := by
  induction cs with
  | nil => rfl
  | cons c cs ih => rw [toJsonAll, ih, List.map_cons]

/-! ## The value that is written -/

mutual

/-- The literal of a condition is what is written for it, and it takes a filled condition. -/
theorem literalOf_iff : ∀ {c : Condition} {v : Json}, LiteralOf v c ↔ v = c.toJson ∧ Filled c
  | .key name, v => by
    constructor
    · intro h
      cases h
      exact ⟨rfl, .key name⟩
    · rintro ⟨rfl, -⟩
      exact .key name
  | .group op operands, v => by
    constructor
    · intro h
      cases h with
      | group _ hne h =>
        obtain ⟨rfl, hfilled⟩ := literalsOf_iff.mp h
        -- no items means no operands, and the other way round
        refine ⟨rfl, .group (fun hnil => hne ?_) hfilled⟩
        rw [hnil, toJsonAll]
    · rintro ⟨rfl, hfilled⟩
      cases hfilled with
      | group hne h =>
        refine .group op (fun hnil => hne ?_) (literalsOf_iff.mpr ⟨rfl, h⟩)
        rw [toJsonAll_eq_map] at hnil
        exact List.map_eq_nil_iff.mp hnil

/-- The same for several conditions, one item for each. -/
theorem literalsOf_iff : ∀ {cs : List Condition} {items : List Json},
    List.Forall₂ LiteralOf items cs ↔ items = toJsonAll cs ∧ ∀ c ∈ cs, Filled c
  | [], items => by simp [toJsonAll]
  | c :: cs, items => by
    rw [List.forall₂_cons_right_iff, List.forall_mem_cons, toJsonAll]
    constructor
    · rintro ⟨item, items, hitem, hitems, rfl⟩
      obtain ⟨rfl, hc⟩ := literalOf_iff.mp hitem
      obtain ⟨rfl, hcs⟩ := literalsOf_iff.mp hitems
      exact ⟨rfl, hc, hcs⟩
    · rintro ⟨rfl, hc, hcs⟩
      exact ⟨_, _, literalOf_iff.mpr ⟨rfl, hc⟩, literalsOf_iff.mpr ⟨rfl, hcs⟩, rfl⟩

end

/-- No array takes the place of a condition. -/
theorem not_expectedIn_toJson (c : Condition) (items : List Json) :
    ¬ ExpectedIn (.array items) c.toJson := by
  induction c using Condition.induct with
  | key name => nofun
  | group op operands ih =>
    rw [toJson, expectedIn_group_iff]
    rintro (h | ⟨item, hitem, h⟩)
    -- the whole is an object, never an array
    · cases h
    · rw [toJsonAll_eq_map] at hitem
      obtain ⟨d, hd, rfl⟩ := List.mem_map.mp hitem
      exact ih d hd h

mutual

/-- What is written tells the condition. -/
theorem toJson_injective : ∀ {c d : Condition}, c.toJson = d.toJson → c = d
  | .key m, .key n, h => by
    simp only [toJson, Json.scalar.injEq, Json.Scalar.string.injEq] at h
    rw [h]
  | .key _, .group _ _, h => by cases h
  | .group _ _, .key _, h => by cases h
  | .group op cs, .group oq ds, h => by
    simp only [toJson, Json.object.injEq, List.cons.injEq, Prod.mk.injEq, Json.array.injEq] at h
    obtain ⟨⟨hkey, hall⟩, -⟩ := h
    rw [Operator.literalKey_injective hkey, toJsonAll_injective hall]

theorem toJsonAll_injective : ∀ {cs ds : List Condition}, toJsonAll cs = toJsonAll ds → cs = ds
  | [], [], _ => rfl
  | [], _ :: _, h => by cases h
  | _ :: _, [], h => by cases h
  | c :: cs, d :: ds, h => by
    obtain ⟨hc, hcs⟩ := List.cons.inj h
    rw [toJson_injective hc, toJsonAll_injective hcs]

end

mutual

/-- Each group of a condition opens an object and the array of its operands. -/
theorem nesting_toJson : ∀ c : Condition, Json.nesting c.toJson = 2 * c.depth
  | .key _ => rfl
  | .group _ operands => by
    have hall := nestingItems_toJsonAll operands
    simp only [toJson, Json.nesting, Json.nestingFields, depth]
    omega

theorem nestingItems_toJsonAll : ∀ cs : List Condition,
    Json.nestingItems (toJsonAll cs) = 2 * depthAll cs
  | [] => rfl
  | c :: cs => by
    have hc := nesting_toJson c
    have hcs := nestingItems_toJsonAll cs
    simp only [toJsonAll, Json.nestingItems, depthAll]
    omega

end

mutual

/-- No number is ever written, so how numbers are read back does not matter. -/
theorem numberFree_toJson : ∀ c : Condition, Json.NumberFree c.toJson
  | .key _ => trivial
  | .group _ operands => ⟨numberFreeItems_toJsonAll operands, trivial⟩

theorem numberFreeItems_toJsonAll : ∀ cs : List Condition, Json.NumberFreeItems (toJsonAll cs)
  | [] => trivial
  | c :: cs => ⟨numberFree_toJson c, numberFreeItems_toJsonAll cs⟩

end

/-! ## The text that is written -/

variable {c d : Condition}

/-- Reading the text of a condition tells the condition from its depth and its literal. -/
theorem ofLiteral_toLiteral_eq (c : Condition) : ofLiteral c.toLiteral =
    if c.depth ≤ 63 then (ofJson c.toJson).mapError fun fault => .unreadable fault.message
    else .error (.unreadable "recursion limit exceeded") := by
  have hparse : (Json.parse Json.nestingLimit c.toLiteral :
      Except (Json.Fault LiteralFault) (Json × Bool)) =
      if 2 * c.depth ≤ 127 then .ok (c.toJson, true) else .error .nestingTooDeep := by
    rw [← nesting_toJson]
    exact Json.parse_render c.toJson (numberFree_toJson c)
  -- A group takes two levels of the 127, so 63 groups fit and the 64th does not.
  by_cases hdepth : c.depth ≤ 63
  · rw [if_pos (by omega)] at hparse
    rw [if_pos hdepth, ofLiteral_of_parse hparse]
  · rw [if_neg (by omega)] at hparse
    rw [if_neg hdepth, ofLiteral, readLiteral, hparse]
    rfl

/-- From what is written for a condition, the condition itself is read or none. -/
theorem ofJson_toJson_eq_ok_iff : ofJson c.toJson = .ok d ↔ d = c ∧ Filled c := by
  rw [ofJson_eq_ok_iff, ofJson?_eq_some_iff_literalOf (not_expectedIn_toJson c), literalOf_iff]
  constructor
  · rintro ⟨h, hfilled⟩
    obtain rfl := toJson_injective h
    exact ⟨rfl, hfilled⟩
  · rintro ⟨rfl, hfilled⟩
    exact ⟨rfl, hfilled⟩

/-- A condition is read from its own text when every group in it has an operand and no more than
63 groups lie inside one another; otherwise the text is refused. -/
theorem ofLiteral_toLiteral_iff (c : Condition) :
    (ofLiteral c.toLiteral = .ok c ↔ Filled c ∧ c.depth ≤ 63) ∧
    ((∃ e, ofLiteral c.toLiteral = .error e) ↔ ¬ (Filled c ∧ c.depth ≤ 63)) := by
  rw [ofLiteral_toLiteral_eq]
  by_cases hdepth : c.depth ≤ 63
  · simp only [hdepth, and_true]
    cases hread : ofJson c.toJson with
    | ok d =>
      obtain ⟨rfl, hfilled⟩ := ofJson_toJson_eq_ok_iff.mp hread
      simp [Except.mapError, hfilled]
    | error fault =>
      have hnot : ¬ Filled c := fun hfilled => by
        rw [ofJson_toJson_eq_ok_iff.mpr ⟨rfl, hfilled⟩] at hread
        cases hread
      simp [Except.mapError, hnot]
  · simp [hdepth]

/-- No two conditions are written alike, whatever their keys are. This includes the conditions whose
texts are refused, with empty groups or with too many groups inside one another. -/
theorem toLiteral_inj {c d : Condition} : c.toLiteral = d.toLiteral ↔ c = d := by
  constructor
  · intro htext
    -- a reader with a higher limit would still tell the two values apart
    have hvalue : c.toJson = d.toJson :=
      Json.render_injective (numberFree_toJson c) (numberFree_toJson d) htext
    exact toJson_injective hvalue
  · rintro rfl
    rfl

end Condition

end KeyRules
