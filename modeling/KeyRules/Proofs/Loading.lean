import KeyRules.Proofs.Reload
import Mathlib.Data.List.Induction

/-!
# KeyRules — which configurations are read

A text that spells an object is a configuration when the field of the rules occurs at most once and
holds an object, all of whose values are rules: a string, which is an expression even if it does not
compile, or a value that is the literal of a condition. A value that is neither refuses the whole
text, also under a name that comes again. Each name is then bound to the last rule with this name,
so that the order of rules with different names makes no difference to a rule set.

* `Config.SourceOf` — the values that are rules, with their sources.
* `Config.Loadable` — the fields of a configuration that can be read.
* `Config.Reordered` — entries in another order, where those with one name keep theirs.
* `Config.getElem?_enter?` — a name is bound to its last value.
* `Config.ofText_of_fields` — when an object is a configuration, and of which rules.
-/

namespace KeyRules.Config

/-- The value is a rule: a string is an expression, and no key, and any other value is a literal. -/
inductive SourceOf : Json → RuleSource → Prop where
  | expression (text : String) : SourceOf (.string text) (.expression text)
  | literal {value : Json} {c : Condition} (hvalue : ∀ text, value ≠ .string text)
      (h : Condition.ofJson value = .ok c) : SourceOf value (.literal c)

/-- The fields hold rules, and every value among these is one. -/
def Loadable (fields : List (String × Json)) : Prop :=
  ∃ rules, RulesIn fields rules ∧ ∀ entry ∈ rules, ∃ source, SourceOf entry.2 source

/-- The entries stand in another order, in which those with one name follow each other as before. -/
inductive Reordered {α : Type} : List (String × α) → List (String × α) → Prop where
  | nil : Reordered [] []
  | cons (entry : String × α) {entries others : List (String × α)} (h : Reordered entries others) :
      Reordered (entry :: entries) (entry :: others)
  | swap {a b : String × α} (h : a.1 ≠ b.1) (entries : List (String × α)) :
      Reordered (a :: b :: entries) (b :: a :: entries)
  | trans {entries others last : List (String × α)} (h : Reordered entries others)
      (hlast : Reordered others last) : Reordered entries last

/-! ## Rules and their values -/

variable {value : Json} {source : RuleSource} {table : Table}
variable {fields rules rules' : List (String × Json)}

/-- What a value is read as is what the relation allows. -/
theorem sourceOf_iff : SourceOf value source ↔ RuleSource.ofJson? value = some source := by
  constructor
  · intro h
    cases h with
    | expression text => rfl
    | literal hvalue h =>
      -- a string never gets as far as the literals
      unfold RuleSource.ofJson?
      split
      · exact absurd rfl (hvalue _)
      · rw [Condition.ofJson_eq_ok_iff.mp h]
        rfl
  · intro h
    unfold RuleSource.ofJson? at h
    split at h
    · obtain rfl := Option.some.inj h
      exact .expression _
    · rename_i hvalue
      obtain ⟨c, hc, rfl⟩ := Option.map_eq_some_iff.mp h
      exact .literal hvalue (Condition.ofJson_eq_ok_iff.mpr hc)

/-- The values of an object are entered when all of them are rules. -/
theorem exists_enter?_iff :
    (∃ entered, enter? table rules = some entered) ↔
      ∀ entry ∈ rules, ∃ source, SourceOf entry.2 source := by
  induction rules generalizing table with
  | nil => simp [enter?]
  | cons entry rules ih =>
    rw [enter?, List.foldlM_cons, List.forall_mem_cons]
    cases hentry : RuleSource.ofJson? entry.2 with
    | none => simp [sourceOf_iff, hentry]
    | some source =>
      have hsource : ∃ source, SourceOf entry.2 source := ⟨source, sourceOf_iff.mpr hentry⟩
      rw [and_iff_right hsource]
      exact ih

/-- The last entry is put into the table that the entries in front of it give. -/
theorem enter?_concat (entry : String × Json) :
    enter? table (rules ++ [entry]) = (enter? table rules).bind fun table =>
      (RuleSource.ofJson? entry.2).map (table.insert entry.1) := by
  simp [enter?, List.foldlM_append]

/-- The values under a name are those in front of the last entry, and its own if it has the name. -/
theorem valuesOf_concat (name : String) (entry : String × Json) :
    valuesOf name (fields ++ [entry]) =
      if entry.1 = name then valuesOf name fields ++ [entry.2] else valuesOf name fields := by
  by_cases hname : entry.1 = name <;> simp [valuesOf, hname]

/-- The last value with a name is what the name is bound to. -/
theorem getElem?_enter? (h : enter? {} rules = some table) (name : String) :
    table[name]? = (valuesOf name rules).getLast?.bind RuleSource.ofJson? := by
  -- what is entered last decides, so the induction takes the rules from the right
  induction rules using List.reverseRecOn generalizing table with
  | nil =>
    obtain rfl := Option.some.inj h
    simp [valuesOf]
  | append_singleton rules entry ih =>
    rw [enter?_concat] at h
    obtain ⟨before, hbefore, h⟩ := Option.bind_eq_some_iff.mp h
    obtain ⟨source, hsource, rfl⟩ := Option.map_eq_some_iff.mp h
    rw [Std.TreeMap.getElem?_insert, valuesOf_concat]
    by_cases hname : entry.1 = name
    · simp [hname, hsource]
    · simp [hname, ih hbefore]

/-- Of the entries with one name the last one counts. -/
theorem getElem?_enter?_iff (h : enter? {} rules = some table) {name : String} :
    table[name]? = some source ↔
      ∃ value, (valuesOf name rules).getLast? = some value ∧ SourceOf value source := by
  simp only [getElem?_enter? h, Option.bind_eq_some_iff, sourceOf_iff]

/-! ## Rules in another order -/

/-- Entries in another order are the same entries. -/
theorem Reordered.perm {α : Type} {entries others : List (String × α)}
    (h : Reordered entries others) : entries.Perm others := by
  induction h with
  | nil => exact .nil
  | cons entry _ ih => exact ih.cons entry
  | swap _ entries => exact .swap _ _ entries
  | trans _ _ ih ihlast => exact ih.trans ihlast

/-- Reordering does not change what stands under a name, because entries with one name keep their
order. -/
theorem Reordered.valuesOf_eq (h : Reordered rules rules') (name : String) :
    valuesOf name rules = valuesOf name rules' := by
  induction h with
  | nil => rfl
  | cons entry _ ih =>
    by_cases hname : entry.1 = name
    · subst hname
      rw [valuesOf_cons_self, valuesOf_cons_self, ih]
    · rw [valuesOf_cons_of_ne hname, valuesOf_cons_of_ne hname, ih]
  | @swap a b hne entries =>
    -- at most one of the two has the name
    by_cases hname : a.1 = name
    · have hother : b.1 ≠ name := fun h => hne (hname.trans h.symm)
      simp [valuesOf, hname, hother]
    · simp [valuesOf, List.filter_cons, hname]
  | trans _ _ ih ihlast => exact ih.trans ihlast

/-- Both orders are entered alike, or neither is. -/
theorem Reordered.toList_enter? (h : Reordered rules rules') :
    (enter? {} rules).map Std.TreeMap.toList = (enter? {} rules').map Std.TreeMap.toList := by
  -- whether all entries are rules does not depend on their order
  have hall : (∃ table, enter? {} rules = some table) ↔ ∃ table, enter? {} rules' = some table := by
    rw [exists_enter?_iff, exists_enter?_iff]
    exact forall_congr' fun entry => imp_congr_left h.perm.mem_iff
  cases hrules : enter? {} rules with
  | none =>
    have hnone : enter? {} rules' = none := by
      rw [Option.eq_none_iff_forall_ne_some]
      intro table htable
      obtain ⟨other, hother⟩ := hall.mpr ⟨table, htable⟩
      rw [hrules] at hother
      cases hother
    rw [hnone]
  | some table =>
    obtain ⟨other, hother⟩ := hall.mp ⟨table, hrules⟩
    -- the tables may differ in shape, but not in what they hold under a name
    have hsame : table.Equiv other := .of_forall_constGet?_eq fun name => by
      rw [getElem?_enter? hrules, getElem?_enter? hother, h.valuesOf_eq]
    rw [hother, Option.map_some, Option.map_some, hsame.toList_eq]

/-! ## Objects that are configurations -/

variable {text text' : String} {fields' : List (String × Json)}

/-- Only one field can be the field of the rules. -/
theorem RulesIn.unique (h : RulesIn fields rules) (h' : RulesIn fields rules') :
    rules = rules' := by
  -- a text has one `rules` field or none, so both sides are of the same case
  cases h with
  | absent hnone =>
    cases h' with
    | absent => rfl
    | field h => rw [hnone] at h; cases h
  | field hrules =>
    cases h' with
    | absent h => rw [hrules] at h; cases h
    | field h =>
      rw [hrules] at h
      exact Json.object.inj (List.cons.inj h).1

/-- The rules of a configuration are those that were entered from its fields. -/
theorem ofText_eq_ok_iff {config : Config}
    (hparse : Json.parse Json.nestingLimit text =
      (.ok (.object fields, true) : Except (Json.Fault ConfigFault) (Json × Bool))) :
    ofText text = .ok config ↔
      ∃ rules, RulesIn fields rules ∧ enter? {} rules = some config.rules := by
  constructor
  · intro h
    rw [ofText_of_object hparse] at h
    -- two fields for the rules and a value that is no object are refused
    rcases hvalues : valuesOf "rules" fields with _ | ⟨value, _ | ⟨second, others⟩⟩
    · rw [hvalues] at h
      obtain rfl := Except.ok.inj h
      exact ⟨[], .absent hvalues, rfl⟩
    · rw [hvalues, tableOfAll] at h
      cases value with
      | object rules =>
        refine ⟨rules, .field hvalues, ?_⟩
        rw [tableOf] at h
        cases henter : enter? {} rules with
        | none => rw [henter] at h; cases h
        | some table =>
          rw [henter] at h
          obtain rfl := Except.ok.inj h
          rfl
      | scalar | array => cases h
    · rw [hvalues, tableOfAll] at h
      cases htable : tableOf value <;> rw [htable] at h <;> cases h
  · rintro ⟨rules, hrules, henter⟩
    rw [ofText_of_rulesIn hparse hrules, henter]

/-- A text that is an object loads just when its fields are those of a configuration. -/
theorem exists_ofText_iff
    (hparse : Json.parse Json.nestingLimit text =
      (.ok (.object fields, true) : Except (Json.Fault ConfigFault) (Json × Bool))) :
    (∃ config, ofText text = .ok config) ↔ Loadable fields := by
  simp only [ofText_eq_ok_iff hparse, Loadable]
  constructor
  · rintro ⟨config, rules, hrules, henter⟩
    exact ⟨rules, hrules, exists_enter?_iff.mp ⟨_, henter⟩⟩
  · rintro ⟨rules, hrules, hall⟩
    obtain ⟨table, henter⟩ := exists_enter?_iff.mpr hall
    exact ⟨⟨table⟩, rules, hrules, henter⟩

/-- Rules in another order give the same rule set, or the same refusal. -/
theorem ofText_eq_of_reordered
    (hparse : Json.parse Json.nestingLimit text =
      (.ok (.object fields, true) : Except (Json.Fault ConfigFault) (Json × Bool)))
    (hparse' : Json.parse Json.nestingLimit text' =
      (.ok (.object fields', true) : Except (Json.Fault ConfigFault) (Json × Bool)))
    (hrules : RulesIn fields rules) (hrules' : RulesIn fields' rules')
    (h : Reordered rules rules') : RuleSet.ofText text = RuleSet.ofText text' := by
  have hlist := h.toList_enter?
  rw [RuleSet.ofText, RuleSet.ofText, ofText_of_rulesIn hparse hrules,
    ofText_of_rulesIn hparse' hrules']
  cases hone : enter? {} rules with
  | none =>
    cases htwo : enter? {} rules' with
    | none => rfl
    | some table => rw [hone, htwo] at hlist; cases hlist
  | some table =>
    cases htwo : enter? {} rules' with
    | none => rw [hone, htwo] at hlist; cases hlist
    | some other =>
      rw [hone, htwo] at hlist
      -- a rule set depends only on the list of the rules of its configuration
      have hsame : table.toList = other.toList := Option.some.inj hlist
      simp only [RuleSet.ofConfig, hsame]

/-- An object is a configuration when it can be loaded, and then each name is bound to its last
value, where a value that is no string is read as in a literal. Rules with different names may stand
in any order. -/
theorem ofText_of_fields
    (hparse : Json.parse Json.nestingLimit text =
      (.ok (.object fields, true) : Except (Json.Fault ConfigFault) (Json × Bool))) :
    ((∃ config, ofText text = .ok config) ↔ Loadable fields) ∧
    (∀ engine, (∃ set, ((RuleSet.ofText text).run engine).value.1 = .ok set) ↔ Loadable fields) ∧
    (∀ config, ofText text = .ok config → ∀ name source,
      config.rules[name]? = some source ↔
        ∃ rules value, RulesIn fields rules ∧ (valuesOf name rules).getLast? = some value ∧
          SourceOf value source) ∧
    (∀ literal value, Json.parse Json.nestingLimit literal =
        (.ok (value, true) : Except (Json.Fault LiteralFault) (Json × Bool)) →
      ∀ c, Condition.ofJson value = .ok c ↔ Condition.ofLiteral literal = .ok c) ∧
    (∀ text' fields' rules rules', Json.parse Json.nestingLimit text' =
        (.ok (.object fields', true) : Except (Json.Fault ConfigFault) (Json × Bool)) →
      RulesIn fields rules → RulesIn fields' rules' → Reordered rules rules' →
        RuleSet.ofText text = RuleSet.ofText text') := by
  have hload := exists_ofText_iff hparse
  refine ⟨hload, fun engine => ?_, fun config hconfig name source => ?_,
    fun literal value hliteral c => ?_,
    fun text' fields' rules rules' hparse' hrules hrules' =>
      ofText_eq_of_reordered hparse hparse' hrules hrules'⟩
  · rw [← hload]
    constructor
    · rintro ⟨set, hset⟩
      obtain ⟨config, hconfig, -⟩ := RuleSet.exists_config hset
      exact ⟨config, hconfig⟩
    · rintro ⟨config, hconfig⟩
      exact ⟨_, RuleSet.run_ofText hconfig engine⟩
  · obtain ⟨rules, hrules, henter⟩ := (ofText_eq_ok_iff hparse).mp hconfig
    rw [getElem?_enter?_iff henter]
    constructor
    · rintro ⟨value, hlast, hsource⟩
      exact ⟨rules, value, hrules, hlast, hsource⟩
    · rintro ⟨rules', value, hrules', hlast, hsource⟩
      -- the fields hold one object of rules only
      obtain rfl := hrules.unique hrules'
      exact ⟨value, hlast, hsource⟩
  · rw [Condition.ofJson_eq_ok_iff, Condition.ofLiteral_eq_ok_iff hliteral]

/-- A name that comes again, with an expression that does not compile, and a text in which the rules
stand in another order and the other field is left out. -/
theorem ofText_of_fields_with_repeated_name :
    ∃ config text text',
      text =
        "\x7b\"n\":[],\"rules\":\x7b\"a\":\"\",\"b\":\x7b\"$or\":[\"\"]\x7d,\"a\":\"x &\"\x7d\x7d" ∧
      text' =
        "\x7b\"rules\":\x7b\"b\":\x7b\"$or\":[\"\"]\x7d,\"a\":\"\",\"a\":\"x &\"\x7d\x7d" ∧
      ofText text = .ok config ∧ config.rules["a"]? = some (.expression "x &") ∧
      config.rules["b"]? = some (.literal (.group .or [.key ""])) ∧
      RuleSet.ofText text = RuleSet.ofText text' := by
  let literal : Json := .object [("$or", .array [.string ""])]
  let rules := [("a", .string ""), ("b", literal), ("a", .string "x &")]
  let rules' := [("b", literal), ("a", .string ""), ("a", .string "x &")]
  have hparse : Json.parse Json.nestingLimit
        "\x7b\"n\":[],\"rules\":\x7b\"a\":\"\",\"b\":\x7b\"$or\":[\"\"]\x7d,\"a\":\"x &\"\x7d\x7d" =
      (.ok (.object [("n", .array []), ("rules", .object rules)], true) :
        Except (Json.Fault ConfigFault) (Json × Bool)) := rfl
  have hparse' : Json.parse Json.nestingLimit
        "\x7b\"rules\":\x7b\"b\":\x7b\"$or\":[\"\"]\x7d,\"a\":\"\",\"a\":\"x &\"\x7d\x7d" =
      (.ok (.object [("rules", .object rules')], true) :
        Except (Json.Fault ConfigFault) (Json × Bool)) := rfl
  have hliteral : SourceOf literal (.literal (.group .or [.key ""])) := .literal nofun rfl
  obtain ⟨hload, -, hbound, -, horder⟩ := ofText_of_fields hparse
  obtain ⟨config, hconfig⟩ := hload.mpr ⟨rules, .field rfl, by
    simp only [rules, List.forall_mem_cons, List.not_mem_nil, false_imp_iff, implies_true, and_true]
    exact ⟨⟨_, .expression ""⟩, ⟨_, hliteral⟩, ⟨_, .expression "x &"⟩⟩⟩
  refine ⟨config, _, _, rfl, rfl, hconfig, ?_, ?_, ?_⟩
  · -- the last entry of the name counts
    exact (hbound config hconfig _ _).mpr ⟨rules, _, .field rfl, rfl, .expression "x &"⟩
  · exact (hbound config hconfig _ _).mpr ⟨rules, _, .field rfl, rfl, hliteral⟩
  · exact horder _ _ rules rules' hparse' (.field rfl) (.field rfl) (.swap (by decide) _)

end KeyRules.Config
