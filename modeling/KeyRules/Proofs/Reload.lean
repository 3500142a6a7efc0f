import KeyRules.Proofs.Balanced
import KeyRules.Proofs.Configs
import KeyRules.Proofs.LiteralText
import KeyRules.Proofs.RoundTrip
import KeyRules.Proofs.RuleSets

/-!
# KeyRules — exporting a rule set

The rules of a set that compiled can be written as a configuration again, each as the literal of its
condition under its name. Read again, it gives a set with the same conditions, as long as no
condition is too deep to be read. A condition that is a single key is written as a string, which is
read as an expression; this makes no difference, because in a set that was read such a key is always
a clean word. Rules that failed are not written.

* `RuleSet.exported` — the configuration of the rules that compiled.
* `Condition.Exportable` — conditions that come back, which those of a configuration are.
* `Config.toList_ofList` — a table holds its rules in the order of the names.
* `RuleSet.conditions_of_exported` — reading the configuration of a set again.
-/

namespace KeyRules

open Expression (CleanWord)

/-- The rules that compiled, as a configuration. -/
def RuleSet.exported (set : RuleSet) : String :=
  Json.render (.object [("rules",
    .object (set.conditions.map fun entry => (entry.1, entry.2.toJson)))])

namespace Condition

variable {c d : Condition} {v : Json} {items : List Json} {operands : List Condition}

/-! ## Conditions that come back -/

/-- What a written condition is read as. -/
def source : Condition → RuleSource
  | key name => .expression name
  | group op operands => .literal (.group op operands)

/-- Every group has an operand, and a condition that is a key is a clean word. -/
structure Exportable (c : Condition) : Prop where
  filled : Filled c
  clean : ∀ name, c = .key name → CleanWord name

/-- The literal of a filled condition is read back as the source that was written: a bare key as an
expression, a group as it is. -/
theorem ofJson?_toJson_source (h : Filled c) : RuleSource.ofJson? c.toJson = some c.source := by
  cases c with
  | key name => rfl
  | group op operands =>
    have hread : ofJson? (Condition.group op operands).toJson = some (.group op operands) :=
      ofJson_eq_ok_iff.mp (ofJson_toJson_eq_ok_iff.mpr ⟨rfl, h⟩)
    show (ofJson? (Condition.group op operands).toJson).map RuleSource.literal = _
    rw [hread]
    rfl

/-- The rule of a key compiles to the key. -/
theorem condition?_source (h : c.Exportable) : c.source.state.condition? = some c := by
  cases c with
  | key name =>
    have hprintable : Printable (.key name) := .key (h.clean name rfl)
    have hparse := parse_render hprintable
    rw [render] at hparse
    rw [source, RuleSource.state, Rule.State.ofExpression, hparse]
  | group op operands => rfl

/-- In a condition that was read every group has an operand. -/
theorem filled_of_ofJson? (h : ofJson? v = some c) : Filled c := by
  induction c using Condition.induct generalizing v with
  | key name => exact .key name
  | group op operands ih =>
    have hoperands {items : List Json} (hitems : ofJsonAll? items = some operands) :
        ∀ d ∈ operands, Filled d := by
      intro d hd
      obtain ⟨item, -, hitem⟩ := forall₂_exists_left (ofJsonAll?_eq_some_iff.mp hitems) hd
      exact ih d hd hitem
    -- reading refuses a group without items, in both of its forms
    rcases ofJson?_eq_some_iff.mp h with ⟨_, _, hc⟩ | ⟨_, items, cs, _, hitems, hne, hc⟩ |
      ⟨items, cs, _, hitems, hne, hc⟩
    · cases hc
    · obtain ⟨rfl, rfl⟩ := Condition.group.inj hc
      exact .group hne (hoperands hitems)
    · obtain ⟨rfl, rfl⟩ := Condition.group.inj hc
      exact .group hne (hoperands hitems)

/-- A rule that is a literal is a group. -/
theorem ofJson?_eq_literal_iff : RuleSource.ofJson? v = some (.literal c) ↔
    ofJson? v = some c ∧ ∀ name, c ≠ .key name := by
  constructor
  · intro h
    have hread : ofJson? v = some c := by
      unfold RuleSource.ofJson? at h
      split at h
      · cases h
      · simpa using h
    refine ⟨hread, ?_⟩
    rintro name rfl
    -- only a string is read as a key, and a string is an expression
    rcases ofJson?_eq_some_iff.mp hread with ⟨_, rfl, _⟩ | ⟨_, _, _, _, _, _, hc⟩ |
      ⟨_, _, _, _, _, hc⟩
    · cases h
    · cases hc
    · cases hc
  · rintro ⟨hread, hgroup⟩
    unfold RuleSource.ofJson?
    split
    · exact absurd (Option.some.inj hread).symm (hgroup _)
    · rw [hread]
      rfl

/-- What a configuration gives for a rule comes back when it is written. -/
theorem exportable_of_source {source : RuleSource} (hsource : RuleSource.ofJson? v = some source)
    (hc : source.state.condition? = some c) : c.Exportable := by
  cases source with
  | expression text =>
    -- what compiles is printable, and in it every key is a clean word
    have hprintable : Printable c := by
      cases hparse : Condition.parse text with
      | error e => simp [RuleSource.state, Rule.State.ofExpression, hparse] at hc
      | ok d =>
        obtain rfl : d = c := by simpa [RuleSource.state, Rule.State.ofExpression, hparse] using hc
        exact printable_of_parse hparse
    refine ⟨hprintable.filled, ?_⟩
    rintro name rfl
    cases hprintable with
    | key h => exact h
  | literal d =>
    -- a literal may have any keys, but it is a group itself
    obtain rfl : d = c := Option.some.inj hc
    obtain ⟨hread, hgroup⟩ := ofJson?_eq_literal_iff.mp hsource
    exact ⟨filled_of_ofJson? hread, fun name hkey => absurd hkey (hgroup name)⟩

end Condition

/-! ## Tables in the order of the names -/

/-- The names stand in the order of a table, each at most once. -/
def Ascending {α : Type} (entries : List (String × α)) : Prop :=
  entries.Pairwise fun a b => compare a.1 b.1 = .lt

/-- Names that ascend are all different. -/
theorem Ascending.nodup {α : Type} {entries : List (String × α)} (h : Ascending entries) :
    entries.Nodup := by
  refine List.Pairwise.imp ?_ h
  rintro a _ hlt rfl
  rw [Std.compare_self] at hlt
  cases hlt

/-- A table of ascending rules holds just these, in the same order. The text that is written out
lists them so. -/
theorem Config.toList_ofList {entries : List (String × RuleSource)} (h : Ascending entries) :
    (Std.TreeMap.ofList entries : Config.Table).toList = entries := by
  have hdistinct : entries.Pairwise fun a b => ¬ compare a.1 b.1 = .eq :=
    List.Pairwise.imp (fun hlt heq => by simp [hlt] at heq) h
  have hsorted : Ascending (Std.TreeMap.ofList entries : Config.Table).toList :=
    Std.TreeMap.ordered_keys_toList
  have hfound {name : String} {source : RuleSource} (hmem : (name, source) ∈ entries) :
      (Std.TreeMap.ofList entries : Config.Table)[name]? = some source :=
    Std.TreeMap.getElem?_ofList_of_mem Std.compare_self hdistinct hmem
  -- both lists ascend, so they are equal when they have the same members
  refine List.Perm.eq_of_pairwise ?_ hsorted h
    ((List.perm_ext_iff_of_nodup hsorted.nodup h.nodup).mpr ?_)
  · intro a b _ _ hab hba
    exact absurd hba (Std.OrientedCmp.not_lt_of_lt hab)
  rintro ⟨name, source⟩
  rw [Std.TreeMap.mem_toList_iff_getElem?_eq_some]
  refine ⟨fun hread => ?_, hfound⟩
  -- a name that is bound was entered, and it is bound to what was entered for it
  by_cases hname : ∃ other, (name, other) ∈ entries
  · obtain ⟨other, hmem⟩ := hname
    obtain rfl : other = source := Option.some.inj ((hfound hmem).symm.trans hread)
    exact hmem
  · have hnone : (Std.TreeMap.ofList entries : Config.Table)[name]? = none := by
      refine Std.TreeMap.getElem?_ofList_of_contains_eq_false ?_
      simpa using fun other hmem => hname ⟨other, hmem⟩
    rw [hnone] at hread
    cases hread

/-- The literals of conditions are entered as what they are read as. -/
theorem Config.enter?_toJson {entries : List (String × Condition)}
    (hfilled : ∀ entry ∈ entries, entry.2.Filled) (table : Config.Table) :
    Config.enter? table (entries.map fun entry => (entry.1, entry.2.toJson)) =
      some (table.insertMany (entries.map fun entry => (entry.1, entry.2.source))) := by
  induction entries generalizing table with
  | nil => simp [Config.enter?]
  | cons entry entries ih =>
    have hentry : RuleSource.ofJson? entry.2.toJson = some entry.2.source :=
      Condition.ofJson?_toJson_source (hfilled entry (by simp))
    rw [List.map_cons, List.map_cons, Std.TreeMap.insertMany_cons, Config.enter?,
      List.foldlM_cons, hentry]
    exact ih (fun e he => hfilled e (List.mem_cons_of_mem _ he)) _

/-! ## Written and read again -/

namespace RuleSet

variable {set : RuleSet} {text : String}

/-- The fields that are written are no deeper than the deepest condition, counted twice. -/
theorem nestingFields_map_toJson {bound : Nat} {entries : List (String × Condition)}
    (h : ∀ entry ∈ entries, entry.2.depth ≤ bound) :
    Json.nestingFields (entries.map fun entry => (entry.1, entry.2.toJson)) ≤ 2 * bound := by
  induction entries with
  | nil => exact Nat.zero_le _
  | cons entry entries ih =>
    have hfirst : entry.2.depth ≤ bound := h entry (by simp)
    have hrest := ih fun e he => h e (List.mem_cons_of_mem _ he)
    rw [List.map_cons, Json.nestingFields, Condition.nesting_toJson]
    omega

theorem numberFreeFields_map_toJson (entries : List (String × Condition)) :
    Json.NumberFreeFields (entries.map fun entry => (entry.1, entry.2.toJson)) := by
  induction entries with
  | nil => trivial
  | cons entry entries ih => exact ⟨Condition.numberFree_toJson entry.2, ih⟩

/-- The configuration of a set is a text of its rules, if none of them is too deep. -/
theorem parse_exported {ρ : Type} (hdepth : ∀ entry ∈ set.conditions, entry.2.depth ≤ 62) :
    Json.parse Json.nestingLimit set.exported =
      (.ok (.object [("rules",
        .object (set.conditions.map fun entry => (entry.1, entry.2.toJson)))], true) :
        Except (Json.Fault ρ) (Json × Bool)) := by
  -- two levels for each level of a condition, and two for the objects around them
  have hnesting := nestingFields_map_toJson hdepth
  have hfree : Json.NumberFree (.object [("rules",
      .object (set.conditions.map fun entry => (entry.1, entry.2.toJson)))]) :=
    ⟨numberFreeFields_map_toJson _, trivial⟩
  rw [exported, Json.parse_render _ hfree, if_pos]
  simp only [Json.nesting, Json.nestingFields, Json.nestingLimit]
  omega

theorem run_ofText {config : Config} (hconfig : Config.ofText text = .ok config)
    (engine : Engine) :
    ((ofText text).run engine).value.1 = .ok ((ofConfig config).run engine).value.1 := by
  rw [ofText, hconfig]
  rfl

/-- A set that was loaded is the set of some configuration. -/
theorem exists_config {engine : Engine}
    (hload : ((ofText text).run engine).value.1 = .ok set) :
    ∃ config, Config.ofText text = .ok config ∧ set = ((ofConfig config).run engine).value.1 := by
  unfold ofText at hload
  split at hload
  · rename_i config hconfig
    exact ⟨config, hconfig, (Except.ok.inj hload).symm⟩
  · cases hload

/-- The conditions of a set that was read come back when they are written. -/
theorem exportable_of_mem {engine : Engine} {config : Config}
    (hlegible : Config.Legible config.rules) :
    ∀ entry ∈ (((ofConfig config).run engine).value.1).conditions, entry.2.Exportable := by
  rintro ⟨name, c⟩ hmem
  rw [conditions_ofConfig] at hmem
  obtain ⟨⟨name', source⟩, hentry, hc⟩ := List.mem_filterMap.mp hmem
  obtain ⟨d, hd, heq⟩ := Option.map_eq_some_iff.mp hc
  obtain ⟨rfl, rfl⟩ := Prod.mk.inj heq
  obtain ⟨value, hvalue⟩ :=
    hlegible _ source (Std.TreeMap.mem_toList_iff_getElem?_eq_some.mp hentry)
  exact Condition.exportable_of_source hvalue hd

/-- They stand in the order of the names. -/
theorem ascending_conditions (engine : Engine) (config : Config) :
    Ascending (((ofConfig config).run engine).value.1).conditions := by
  rw [conditions_ofConfig]
  refine List.Pairwise.filterMap _ ?_ Std.TreeMap.ordered_keys_toList
  intro a b hlt a' ha b' hb
  obtain ⟨c, -, rfl⟩ := Option.map_eq_some_iff.mp ha
  obtain ⟨d, -, rfl⟩ := Option.map_eq_some_iff.mp hb
  exact hlt

/-- A configuration of literals gives a set with their conditions, none of which fails. -/
theorem conditions_of_sources {entries : List (String × Condition)}
    (hascending : Ascending entries) (hexportable : ∀ entry ∈ entries, entry.2.Exportable)
    {config : Config}
    (hconfig : config.rules = .ofList (entries.map fun entry => (entry.1, entry.2.source)))
    (engine : Engine) :
    (((ofConfig config).run engine).value.1).conditions = entries ∧
      (((ofConfig config).run engine).value.1).failures = [] := by
  have hlist : config.rules.toList = entries.map fun entry => (entry.1, entry.2.source) := by
    rw [hconfig]
    exact Config.toList_ofList (List.Pairwise.map _ (fun _ _ h => h) hascending)
  have hsource (entry : String × Condition) (h : entry ∈ entries) :
      entry.2.source.state.condition? = some entry.2 :=
    Condition.condition?_source (hexportable entry h)
  constructor
  · -- each source compiles to the condition it was written for
    have hsame : ∀ entry ∈ entries,
        (entry.2.source.state.condition?.map (entry.1, ·)) = some entry := fun entry h => by
      rw [hsource entry h]
      rfl
    rw [conditions_ofConfig, hlist, List.filterMap_map]
    exact (List.filterMap_congr hsame).trans List.filterMap_some
  · -- a source that compiles is no failure
    rw [failures_eq, states_ofConfig, hlist, List.map_eq_nil_iff, List.filter_eq_nil_iff]
    intro entry hentry
    simp only [List.map_map, List.mem_map] at hentry
    obtain ⟨written, hwritten, rfl⟩ := hentry
    simp [hsource written hwritten]

/-- What a set that was read exports can be read again. It gives a set with the same conditions,
of which no rule fails, and so the same rules match every candidate. -/
theorem conditions_of_exported {engine : Engine}
    (hload : ((ofText text).run engine).value.1 = .ok set)
    (hdepth : ∀ entry ∈ set.conditions, entry.2.depth ≤ 62) (other : Engine) :
    ∃ reloaded, ((ofText set.exported).run other).value.1 = .ok reloaded ∧
      reloaded.conditions = set.conditions ∧ reloaded.failures = [] ∧
      ∀ {γ : Type} [HasKeys γ] (candidate : γ),
        reloaded.matching candidate = set.matching candidate := by
  obtain ⟨config, hconfig, hset⟩ := exists_config hload
  -- what the set was read from decides its conditions, not what the engine did before
  have hexportable : ∀ entry ∈ set.conditions, entry.2.Exportable := by
    rw [hset]
    exact exportable_of_mem (Config.legible_of_ofText hconfig)
  have hascending : Ascending set.conditions := by
    rw [hset]
    exact ascending_conditions engine config
  -- the text is read as the literals in the order of the names
  obtain ⟨written, hread, hwritten⟩ : ∃ written, Config.ofText set.exported = .ok written ∧
      written.rules = .ofList (set.conditions.map fun entry => (entry.1, entry.2.source)) := by
    refine ⟨⟨.ofList (set.conditions.map fun entry => (entry.1, entry.2.source))⟩, ?_, rfl⟩
    rw [Config.ofText_of_rules (parse_exported hdepth),
      Config.enter?_toJson fun entry h => (hexportable entry h).filled,
      Std.TreeMap.ofList_eq_insertMany_empty]
  obtain ⟨hconditions, hfailures⟩ :=
    conditions_of_sources hascending hexportable hwritten other
  refine ⟨_, run_ofText hread other, hconditions, hfailures, ?_⟩
  intro γ _ candidate
  rw [matching_eq, matching_eq, hconditions]

open Expression in
/-- A rule that is a single key, one that fails, and a group of one operand. -/
theorem conditions_of_exported_key :
    ∃ text set reloaded, text =
        "\x7b\"rules\":\x7b\"a\":\"(x)\",\"b\":\"x &&\",\"c\":\x7b\"$or\":[\"y\"]\x7d\x7d\x7d" ∧
      ((ofText text).run {}).value.1 = .ok set ∧
      set.conditions = [("a", .key "x"), ("c", .group .or [.key "y"])] ∧
      ((ofText set.exported).run {}).value.1 = .ok reloaded ∧
      reloaded.conditions = set.conditions ∧ reloaded.failures = [] ∧
      (reloaded.matching [("x", ())]).value = ["a"] := by
  have hparse : Json.parse Json.nestingLimit
        "\x7b\"rules\":\x7b\"a\":\"(x)\",\"b\":\"x &&\",\"c\":\x7b\"$or\":[\"y\"]\x7d\x7d\x7d" =
      (.ok (.object [("rules", .object [("a", .string "(x)"), ("b", .string "x &&"),
        ("c", .object [("$or", .array [.string "y"])])])], true) :
        Except (Json.Fault ConfigFault) (Json × Bool)) := rfl
  let entries : List (String × RuleSource) :=
    [("a", .expression "(x)"), ("b", .expression "x &&"), ("c", .literal (.group .or [.key "y"]))]
  have hconfig : Config.ofText _ = .ok ⟨.ofList entries⟩ := Config.ofText_of_rules hparse
  have hconditions : (((ofConfig ⟨.ofList entries⟩).run {}).value.1).conditions =
      [("a", .key "x"), ("c", .group .or [.key "y"])] := by
    have hlist : (Std.TreeMap.ofList entries : Config.Table).toList = entries :=
      Config.toList_ofList (by unfold Ascending; decide)
    have hgroup : tokens "(x)" = Part.tokensAll [.group [.word "x"]] := by decide
    have hkey : Condition.parse "(x)" = .ok (.key "x") := parse_of_condition hgroup rfl
    have hpair : tokens "x &&" = Part.tokensAll [.word "x", .word "&&"] := by decide
    have hbad : Condition.parse "x &&" = .error (.evenItems 2) := parse_of_fault hpair nofun rfl
    rw [conditions_ofConfig, hlist]
    simp [entries, RuleSource.state, Rule.State.ofExpression, Rule.State.ofCondition, hkey, hbad]
  obtain ⟨reloaded, hreload, hsame, hfailures, hmatching⟩ :=
    conditions_of_exported (run_ofText hconfig {}) (by rw [hconditions]; decide) {}
  refine ⟨_, _, reloaded, rfl, run_ofText hconfig {}, hconditions, hreload, hsame, hfailures, ?_⟩
  rw [hmatching, matching_eq, hconditions]
  rfl

end RuleSet

end KeyRules
