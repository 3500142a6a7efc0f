import KeyRules.Condition.Literal
import KeyRules.Text.Quoted
import Std.Data.TreeMap

/-!
# KeyRules — configurations of rule sets

A configuration names rules and says where each comes from. As a JSON text it is an object whose
field `rules` holds an object of rules by name, or an array whose single item is that object; both
parts may be left out. A rule is an expression when it is a string and a literal condition
otherwise. Other fields are skipped. Of two rules with one name the last one counts, but both must
be rules.

The text is judged while it is read: a rule as soon as it is complete, a value of the wrong type
at its first sign.

* `RuleSource`, `Config` — the parts of a configuration.
* `Config.Draft`, `Config.reading` — a configuration of which the beginning was read.
* `Config.ofText` — the configuration of a JSON text.
-/

namespace KeyRules

/-- Where a rule comes from. -/
inductive RuleSource where
  /-- An expression, which may not compile. -/
  | expression (text : String)
  /-- A condition. -/
  | literal (c : Condition)
  deriving DecidableEq, Repr

/-- The source that a JSON value stands for. -/
def RuleSource.ofJson? : Json → Option RuleSource
  | .scalar (.string text) => some (.expression text)
  | value => (Condition.ofJson? value).map .literal

/-- Rules by name, in the order of the names. -/
structure Config where
  /-- The rules. -/
  rules : Std.TreeMap String RuleSource := {}

/-! ## Refusals -/

/-- The parts of a configuration that must have a certain type. -/
inductive Config.Part where
  /-- The whole configuration. -/
  | whole
  /-- The rules by name. -/
  | rules
  deriving DecidableEq, Repr

/-- Why a text is no configuration. -/
inductive ConfigFault where
  /-- A value stands where a part of another type must be; it is an array if it is no scalar. -/
  | wrongType (found : Option Json.Scalar) (expected : Config.Part)
  /-- The field of the rules occurs twice. -/
  | repeatedRules
  /-- A value is no rule. -/
  | noRule
  deriving Repr

/-- A scalar as a message names it. -/
def Json.Scalar.describe : Json.Scalar → String
  | null => "null"
  | bool value => "boolean `" ++ toString value ++ "`"
  | number (.integer value) => "integer `" ++ toString value ++ "`"
  | number (.float value) => "floating point `" ++ Decimal.render value ++ "`"
  | string value => "string " ++ Text.quote value

/-- What must stand in place of a part. -/
def Config.Part.describe : Config.Part → String
  | whole => "struct RuleSetConfig"
  | rules => "a map"

/-- The text of a refusal. -/
def ConfigFault.message : ConfigFault → String
  | wrongType found expected =>
    "invalid type: " ++ (found.map Json.Scalar.describe).getD "sequence" ++ ", expected " ++
      expected.describe
  | repeatedRules => "duplicate field `rules`"
  | noRule => "data did not match any variant of untagged enum RuleSource"

namespace Config

/-! ## Reading -/

/-- The rules read so far. -/
abbrev Table := Std.TreeMap String RuleSource

/-- What the rules stand in. -/
inductive Frame where
  /-- The field of an object. -/
  | field
  /-- The item of an array. -/
  | item
  deriving DecidableEq, Repr

/-- A configuration of which the beginning was read. -/
inductive Draft where
  /-- Nothing was read. -/
  | start
  /-- Between the fields of the configuration, with the rules if their field was met. -/
  | fields (rules : Option Table)
  /-- In the value of another field, with that many arrays and objects open in it. -/
  | skipped (rules : Option Table) (depth : Nat)
  /-- Before the rules. -/
  | due (frame : Frame)
  /-- Between two rules. -/
  | rules (frame : Frame) (table : Table)
  /-- In the value of a rule. -/
  | rule (frame : Frame) (table : Table) (name : String) (value : Json.Draft)
  /-- After the single item of an array. -/
  | full (table : Table)
  /-- The configuration is complete. -/
  | complete (table : Table)

namespace Draft

/-- How a text is read at this point: other fields are only skipped. -/
def manner : Draft → Json.Manner
  | skipped _ _ => .lax
  | full _ => .full
  | _ => .strict

/-- Goes on with a rule, which is judged when its value is complete. -/
def judge (frame : Frame) (table : Table) (name : String) (value : Json.Draft) :
    Except ConfigFault Draft :=
  match value.value? with
  | none => .ok (rule frame table name value)
  | some json =>
    match RuleSource.ofJson? json with
    | some source => .ok (rules frame (table.insert name source))
    | none => .error .noRule

/-- Takes up a value without parts. -/
def scalar (draft : Draft) (v : Json.Scalar) : Except ConfigFault Draft :=
  match draft with
  | start => .error (.wrongType (some v) .whole)
  | skipped table 0 => .ok (fields table)
  | due _ => .error (.wrongType (some v) .rules)
  | rule frame table name value => judge frame table name (value.scalar v)
  | draft => .ok draft

/-- Takes up the beginning of an array or object. -/
def enter (draft : Draft) (kind : Json.Container) : Except ConfigFault Draft :=
  match draft, kind with
  | start, .array => .ok (due .item)
  | start, .object => .ok (fields none)
  | skipped table depth, _ => .ok (skipped table (depth + 1))
  | due _, .array => .error (.wrongType none .rules)
  | due frame, .object => .ok (rules frame {})
  | rule frame table name value, kind => .ok (rule frame table name (value.enter kind))
  | draft, _ => .ok draft

/-- Takes up the name of a field. -/
def name (draft : Draft) (text : String) : Except ConfigFault Draft :=
  match draft with
  | fields none => .ok (if text = "rules" then due .field else skipped none 0)
  | fields (some table) =>
    if text = "rules" then .error .repeatedRules else .ok (skipped (some table) 0)
  | rules frame table => .ok (rule frame table text (.pending []))
  | rule frame table name value => .ok (rule frame table name (value.name text))
  | draft => .ok draft

/-- Takes up the end of the innermost array or object. -/
def leave (draft : Draft) : Except ConfigFault Draft :=
  match draft with
  | fields table => .ok (complete (table.getD {}))
  | skipped table 1 => .ok (fields table)
  | skipped table (depth + 1) => .ok (skipped table depth)
  | due _ => .ok (complete {})
  | rules .field table => .ok (fields (some table))
  | rules .item table => .ok (full table)
  | rule frame table name value => judge frame table name value.leave
  | full table => .ok (complete table)
  | draft => .ok draft

/-- The configuration, when it is complete. -/
def config? : Draft → Option Config
  | complete table => some ⟨table⟩
  | _ => none

end Draft

/-- Reads a configuration and judges its parts. -/
def reading : Json.Sink ConfigFault Draft where
  manner := Draft.manner
  scalar := Draft.scalar
  enter := Draft.enter
  name := Draft.name
  leave := Draft.leave

/-- Reads a configuration from a JSON text. -/
def read (text : String) : Except (Json.Fault ConfigFault) Config := do
  let (draft, clean) ← Json.readInto Json.nestingLimit reading .start text
  match draft.config? with
  | some config => Json.wholly config clean
  | none => throw .endInValue

/-- The configuration of a JSON text. -/
def ofText (text : String) : Except Error Config :=
  (read text).mapError fun fault => .unreadable (fault.message ConfigFault.message)

end Config

end KeyRules
