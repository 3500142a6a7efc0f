import KeyRules.RuleSet.Config
import KeyRules.Proofs.Lockstep

/-!
# KeyRules — what configurations are read as

A configuration is judged while its text is read, but what comes of a text that spells one value
can be said of that value: the rules are entered in order, so that of two with one name the last
one stays, and one value that is no rule refuses them all. Whatever a text looks like, the rules of
its configuration come from values that are rules.

* `Config.feed_rule` — a value in the place of a rule is judged as a whole.
* `Config.enter?` — the rules that an object of rules adds.
* `Config.feed_skipped` — the value of another field is not looked at.
* `Config.ofText_of_object` — the configuration of an object, from its fields of rules.
* `Config.RulesIn` — the rules in the fields of an object.
* `Config.legible_of_ofText` — where the rules of any configuration come from.
-/

namespace KeyRules.Config

open Json (Ready Sink Fault)

/-! ## The value of a text -/

/-- Other fields are only skipped, and nothing in them is looked at. -/
theorem passesText_reading : reading.PassesText where
  scalar content text other h := by
    cases content with
    | skipped table depth => cases depth <;> rfl
    | _ => cases h
  name content text other h := by
    cases content with
    | skipped table depth => rfl
    | _ => cases h

variable {frame : Frame} {table : Table} {name : String} {frames : List Json.Frame}

mutual

/-- A value in the place of a rule is judged as a whole. -/
theorem feed_rule : ∀ (value : Json) {frames : List Json.Frame}, Ready frames →
    reading.feed value (.rule frame table name (.pending frames)) =
      (Draft.judge frame table name (Json.Draft.put value frames)).mapError .refused
  | .scalar v, frames, _ => rfl
  | .array items, frames, hready => by
    have hitems := feed_ruleItems items false [] hready
    rw [List.append_nil] at hitems
    rw [Sink.feed]
    show reading.feedItems false items (.rule frame table name (.pending (.array [] :: frames)))
      >>= _ = _
    rw [hitems]
    -- the closing bracket makes the items a value, and with it the rule may be complete
    show (Draft.judge frame table name
      (Json.Draft.put (.array items.reverse.reverse) frames)).mapError _ = _
    rw [List.reverse_reverse]
  | .object fields, frames, hready => by
    have hfields := feed_ruleFields fields [] hready
    rw [List.append_nil] at hfields
    rw [Sink.feed]
    show reading.feedFields fields (.rule frame table name (.pending (.object [] :: frames)))
      >>= _ = _
    rw [hfields]
    show (Draft.judge frame table name
      (Json.Draft.put (.object fields.reverse.reverse) frames)).mapError _ = _
    rw [List.reverse_reverse]

/-- The items of an array inside a rule are collected, whatever they are. -/
theorem feed_ruleItems : ∀ (items : List Json) (taken : Bool) (done : List Json)
    {frames : List Json.Frame}, Ready frames →
    reading.feedItems taken items (.rule frame table name (.pending (.array done :: frames))) =
      .ok (.rule frame table name (.pending (.array (items.reverse ++ done) :: frames)))
  | [], taken, done, frames, _ => rfl
  | item :: items, taken, done, frames, hready => by
    -- an array inside a rule may have any number of items
    have hroom : reading.room taken (.rule frame table name (.pending (.array done :: frames))) =
        .ok (.rule frame table name (.pending (.array done :: frames))) :=
      if_neg fun h => nomatch h.2
    have hopen : Ready (.array done :: frames) := Json.ready_array.mpr hready
    rw [Sink.feedItems, hroom]
    show reading.feed item _ >>= _ = _
    rw [feed_rule item hopen]
    show reading.feedItems true items
      (.rule frame table name (.pending (.array (item :: done) :: frames))) = _
    rw [feed_ruleItems items true (item :: done) hready, List.reverse_cons, List.append_assoc,
      List.singleton_append]

/-- The fields of an object inside a rule are collected. -/
theorem feed_ruleFields : ∀ (fields : List (String × Json)) (done : List (String × Json))
    {frames : List Json.Frame}, Ready frames →
    reading.feedFields fields (.rule frame table name (.pending (.object done :: frames))) =
      .ok (.rule frame table name (.pending (.object (fields.reverse ++ done) :: frames)))
  | [], done, frames, _ => rfl
  | (key, value) :: fields, done, frames, hready => by
    -- the rule is handed on whole only when its frames are closed, so each field stays in the draft
    have hopen : Ready (.field done key :: frames) := Json.ready_field.mpr hready
    rw [Sink.feedFields]
    show reading.feed value (.rule frame table name (.pending (.field done key :: frames)))
      >>= _ = _
    rw [feed_rule value hopen]
    show reading.feedFields fields
      (.rule frame table name (.pending (.object ((key, value) :: done) :: frames))) = _
    rw [feed_ruleFields fields ((key, value) :: done) hready, List.reverse_cons,
      List.append_assoc, List.singleton_append]

end

/-- The rules of a table with those of an object entered, if all of its values are rules. -/
def enter? (table : Table) (fields : List (String × Json)) : Option Table :=
  fields.foldlM (fun table field => (RuleSource.ofJson? field.2).map (table.insert field.1)) table

/-- An object of rules is entered into the table, or refused at the first value that is no rule. -/
theorem feedFields_rules (fields : List (String × Json)) :
    reading.feedFields fields (.rules frame table) =
      match enter? table fields with
      | some table => .ok (.rules frame table)
      | none => .error (.refused .noRule) := by
  induction fields generalizing table with
  | nil => rfl
  | cons field fields ih =>
    obtain ⟨key, value⟩ := field
    rw [Sink.feedFields]
    show reading.feed value (.rule frame table key (.pending [])) >>= _ = _
    rw [feed_rule value Json.ready_nil, enter?, List.foldlM_cons]
    -- the rule is entered, or refused, before the next field is looked at
    simp only [Json.Draft.put, Draft.judge, Json.Draft.value?]
    cases RuleSource.ofJson? value with
    | none => rfl
    | some source => exact ih

/-! ## Other fields -/

/-- A configuration between two fields, or still in the value of one that is skipped. -/
def Draft.skippedTo (table? : Option Table) : Nat → Draft
  | 0 => .fields table?
  | depth + 1 => .skipped table? (depth + 1)

variable {table? : Option Table}

mutual

/-- The value of another field changes nothing, whatever it is. -/
theorem feed_skipped : ∀ (value : Json) (depth : Nat),
    reading.feed value (.skipped table? depth) = .ok (.skippedTo table? depth)
  | .scalar v, depth => by cases depth <;> rfl
  | .array items, depth => by
    rw [Sink.feed]
    show reading.feedItems false items (.skipped table? (depth + 1)) >>= _ = _
    rw [feed_skippedItems]
    cases depth <;> rfl
  | .object fields, depth => by
    rw [Sink.feed]
    show reading.feedFields fields (.skipped table? (depth + 1)) >>= _ = _
    rw [feed_skippedFields]
    cases depth <;> rfl

/-- Items of a skipped array leave no trace. -/
theorem feed_skippedItems : ∀ (items : List Json) (taken : Bool) (depth : Nat),
    reading.feedItems taken items (.skipped table? (depth + 1)) =
      .ok (.skipped table? (depth + 1))
  | [], taken, depth => rfl
  | item :: items, taken, depth => by
    -- what is skipped may have any number of items
    have hroom : reading.room taken (.skipped table? (depth + 1)) =
        .ok (.skipped table? (depth + 1)) := if_neg fun h => nomatch h.2
    rw [Sink.feedItems, hroom]
    show reading.feed item _ >>= _ = _
    rw [feed_skipped item]
    exact feed_skippedItems items true depth

/-- Fields of a skipped object leave no trace. -/
theorem feed_skippedFields : ∀ (fields : List (String × Json)) (depth : Nat),
    reading.feedFields fields (.skipped table? (depth + 1)) = .ok (.skipped table? (depth + 1))
  | [], depth => rfl
  | (name, value) :: fields, depth => by
    rw [Sink.feedFields]
    show reading.feed value (.skipped table? (depth + 1)) >>= _ = _
    rw [feed_skipped value]
    exact feed_skippedFields fields depth

end

/-! ## The field of the rules -/

/-- The values of the fields with a name, in order. -/
def valuesOf (name : String) (fields : List (String × Json)) : List Json :=
  (fields.filter fun field => field.1 = name).map Prod.snd

/-- The rules of a value in the field of the rules, or why there are none. -/
def tableOf : Json → Except ConfigFault Table
  | .object rules => (enter? {} rules).elim (.error .noRule) .ok
  | .array _ => .error (.wrongType none .rules)
  | .scalar v => .error (.wrongType (some v) .rules)

/-- The rules of a configuration with the given values in the fields of the rules. -/
def tableOfAll : List Json → Except ConfigFault Table
  | [] => .ok {}
  | [value] => tableOf value
  | value :: _ :: _ => tableOf value >>= fun _ => .error .repeatedRules

theorem valuesOf_cons_self (name : String) (value : Json) (fields : List (String × Json)) :
    valuesOf name ((name, value) :: fields) = value :: valuesOf name fields := by
  simp [valuesOf]

theorem valuesOf_cons_of_ne {name other : String} (hname : other ≠ name) (value : Json)
    (fields : List (String × Json)) :
    valuesOf name ((other, value) :: fields) = valuesOf name fields := by
  simp [valuesOf, hname]

/-- A value where the rules are due is the table of rules, or refused. -/
theorem feed_due (value : Json) : reading.feed value (.due .field) =
    (tableOf value).mapError .refused >>= fun table => .ok (.fields (some table)) := by
  cases value with
  | scalar v => rfl
  | array items => rfl
  | object rules =>
    rw [Sink.feed]
    show (reading.feedFields rules (.rules .field {}) >>= _) = _
    rw [feedFields_rules, tableOf]
    cases enter? {} rules <;> rfl

/-- Another field is skipped. -/
theorem feedFields_other {name : String} (hname : name ≠ "rules") (value : Json)
    (fields : List (String × Json)) (table? : Option Table) :
    reading.feedFields ((name, value) :: fields) (.fields table?) =
      reading.feedFields fields (.fields table?) := by
  -- a name other than `rules` begins a value that is skipped
  have hfield : reading.name (.fields table?) name = .ok (.skipped table? 0) := by
    cases table? with
    | none => exact congrArg Except.ok (if_neg hname)
    | some table => exact if_neg hname
  rw [Sink.feedFields, hfield]
  show reading.feed value (.skipped table? 0) >>= _ = _
  rw [feed_skipped]
  rfl

/-- Once the rules are known, their field must not occur again. -/
theorem feedFields_known (fields : List (String × Json)) (table : Table) :
    reading.feedFields fields (.fields (some table)) =
      if valuesOf "rules" fields = [] then .ok (.fields (some table))
      else .error (.refused .repeatedRules) := by
  induction fields with
  | nil => rfl
  | cons field fields ih =>
    obtain ⟨name, value⟩ := field
    by_cases hname : name = "rules"
    · subst hname
      rw [if_neg (by simp [valuesOf_cons_self])]
      rfl
    · rw [feedFields_other hname, valuesOf_cons_of_ne hname, ih]

/-- The fields of a configuration give the rules of their field, or none without it. -/
theorem feedFields_config (fields : List (String × Json)) :
    (reading.feedFields fields (.fields none) >>= fun draft =>
        (reading.leave draft).mapError .refused) =
      (tableOfAll (valuesOf "rules" fields)).mapError .refused >>= fun table =>
        .ok (.complete table) := by
  induction fields with
  | nil => rfl
  | cons field fields ih =>
    obtain ⟨name, value⟩ := field
    by_cases hname : name = "rules"
    · subst hname
      rw [Sink.feedFields]
      show (reading.feed value (.due .field) >>= _) >>= _ = _
      rw [feed_due, valuesOf_cons_self]
      cases hvalue : tableOf value with
      | error fault =>
        -- the fault of the first such field is met before there is another one
        cases valuesOf "rules" fields with
        | nil => rw [tableOfAll, hvalue]; rfl
        | cons => rw [tableOfAll, hvalue]; rfl
      | ok table =>
        show reading.feedFields fields (.fields (some table)) >>= _ = _
        rw [feedFields_known]
        cases valuesOf "rules" fields with
        | nil => rw [tableOfAll, hvalue]; rfl
        | cons => rw [tableOfAll, hvalue]; rfl
    · rw [feedFields_other hname, valuesOf_cons_of_ne hname, ih]

variable {text : String} {fields : List (String × Json)}

/-- The configuration of a text that spells one object. -/
theorem ofText_of_object (h : Json.parse Json.nestingLimit text =
      (.ok (.object fields, true) : Except (Fault ConfigFault) (Json × Bool))) :
    ofText text = match tableOfAll (valuesOf "rules" fields) with
      | .ok table => .ok ⟨table⟩
      | .error fault => .error (.unreadable fault.message) := by
  have hread : Json.readInto Json.nestingLimit reading .start text =
      reading.feed (.object fields) .start >>= fun draft => pure (draft, true) :=
    Json.readInto_of_parse passesText_reading h
  rw [Sink.feed] at hread
  change _ = (reading.feedFields fields (.fields none) >>= _) >>= _ at hread
  rw [feedFields_config] at hread
  rw [ofText, read, hread]
  cases tableOfAll (valuesOf "rules" fields) <;> rfl

/-- The rules that the fields of a configuration hold, none without a field for them. -/
inductive RulesIn (fields : List (String × Json)) : List (String × Json) → Prop where
  | absent (h : valuesOf "rules" fields = []) : RulesIn fields []
  | field {rules : List (String × Json)} (h : valuesOf "rules" fields = [.object rules]) :
      RulesIn fields rules

/-- The configuration of an object that holds rules. -/
theorem ofText_of_rulesIn {rules : List (String × Json)}
    (h : Json.parse Json.nestingLimit text =
      (.ok (.object fields, true) : Except (Fault ConfigFault) (Json × Bool)))
    (hrules : RulesIn fields rules) :
    ofText text = match enter? {} rules with
      | some table => .ok ⟨table⟩
      | none => .error (.unreadable ConfigFault.noRule.message) := by
  rw [ofText_of_object h]
  cases hrules with
  | absent hfields => rw [hfields]; rfl
  | field hfields =>
    rw [hfields, tableOfAll, tableOf]
    cases enter? {} rules <;> rfl

/-- The configuration of an object of rules. -/
theorem ofText_of_rules (h : Json.parse Json.nestingLimit text =
      (.ok (.object [("rules", .object fields)], true) :
        Except (Fault ConfigFault) (Json × Bool))) :
    ofText text = match enter? {} fields with
      | some table => .ok ⟨table⟩
      | none => .error (.unreadable ConfigFault.noRule.message) :=
  ofText_of_rulesIn h (.field rfl)

/-! ## Where rules come from -/

/-- The rules read so far. -/
def Draft.entered : Draft → Table
  | .start | .due _ => {}
  | .fields table | .skipped table _ => table.getD {}
  | .rules _ table | .rule _ table _ _ | .full table | .complete table => table

/-- Every rule of a table was read from a value. -/
def Legible (table : Table) : Prop :=
  ∀ (name : String) (source : RuleSource), table[name]? = some source →
    ∃ value, RuleSource.ofJson? value = some source

/-- The empty table can be written out again. -/
theorem legible_empty : Legible {} := by
  intro name source h
  simp at h

/-- A rule that was read can be written out, so the table with it can be as well. -/
theorem Legible.insert (h : Legible table) {value : Json} {source : RuleSource}
    (hsource : RuleSource.ofJson? value = some source) : Legible (table.insert name source) := by
  intro other found hfound
  rw [Std.TreeMap.getElem?_insert] at hfound
  split at hfound
  · obtain rfl := Option.some.inj hfound
    exact ⟨value, hsource⟩
  · exact h other found hfound

/-- Judging a rule puts one into the table that can be written out. -/
theorem legible_judge (h : Legible table) {value : Json.Draft} {next : Draft}
    (hjudge : Draft.judge frame table name value = .ok next) : Legible next.entered := by
  unfold Draft.judge at hjudge
  -- a rule that is not complete yet leaves the table as it is
  split at hjudge
  · obtain rfl := Except.ok.inj hjudge
    exact h
  split at hjudge
  · obtain rfl := Except.ok.inj hjudge
    exact h.insert ‹_›
  · cases hjudge

/-- No part of a text brings a rule with it that is none. -/
theorem keeps_legible : reading.Keeps fun draft => Legible draft.entered where
  scalar {content next v} h hnext := by
    change Draft.scalar content v = .ok next at hnext
    unfold Draft.scalar at hnext
    split at hnext
    · cases hnext
    · obtain rfl := Except.ok.inj hnext
      exact h
    · cases hnext
    · exact legible_judge h hnext
    · obtain rfl := Except.ok.inj hnext
      exact h
  enter {content next kind} h hnext := by
    change Draft.enter content kind = .ok next at hnext
    unfold Draft.enter at hnext
    split at hnext
    case h_4 => cases hnext
    -- a bracket opens a table that is empty, or changes none
    all_goals
      obtain rfl := Except.ok.inj hnext
      first
        | exact legible_empty
        | exact h
  name {content next text} h hnext := by
    change Draft.name content text = .ok next at hnext
    unfold Draft.name at hnext
    split at hnext
    · obtain rfl := Except.ok.inj hnext
      -- no rule was entered before the field of the rules
      split
      · exact legible_empty
      · exact h
    · split at hnext
      · cases hnext
      · obtain rfl := Except.ok.inj hnext
        exact h
    all_goals
      obtain rfl := Except.ok.inj hnext
      exact h
  leave {content next} h hnext := by
    change Draft.leave content = .ok next at hnext
    unfold Draft.leave at hnext
    split at hnext
    -- a bracket that ends a rule has it judged, and every other one only ends something
    all_goals first
      | exact legible_judge h hnext
      | obtain rfl := Except.ok.inj hnext
        first
          | exact legible_empty
          | exact h

/-- The rules of a configuration were read from values, whatever its text looks like. -/
theorem legible_of_ofText {text : String} {config : Config} (h : ofText text = .ok config) :
    Legible config.rules := by
  have hread : read text = .ok config := Json.mapError_eq_ok.mp h
  obtain ⟨⟨draft, clean⟩, hdraft, hread⟩ := Json.bind_eq_ok.mp hread
  have hstart : Legible Draft.start.entered := legible_empty
  have hlegible : Legible draft.entered := Json.readInto_keeps keeps_legible hstart hdraft
  -- the text has a configuration only when the draft is complete
  cases draft with
  | complete table =>
    cases clean with
    | true =>
      obtain rfl := Except.ok.inj hread
      exact hlegible
    | false => cases hread
  | _ => cases hread

end KeyRules.Config
