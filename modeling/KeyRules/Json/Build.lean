import KeyRules.Json.Reader

/-!
# KeyRules — JSON values from texts

* `Draft` — a value of which the beginning was read.
* `building` — the sink that builds a value and refuses none.
* `parse` — the value of a text.
-/

namespace KeyRules.Json

/-- An array or object that is not complete yet; items and fields stand last one first. -/
inductive Frame where
  /-- An array, with the items so far. -/
  | array (items : List Json)
  /-- An object, with the fields so far. -/
  | object (fields : List (String × Json))
  /-- An object in which a name waits for its value. -/
  | field (fields : List (String × Json)) (name : String)
  deriving Repr

/-- A value of which the beginning was read. -/
inductive Draft where
  /-- Something is missing: what is open, the innermost first. -/
  | pending (frames : List Frame)
  /-- The value is complete. -/
  | complete (value : Json)
  deriving Repr

namespace Draft

/-- Puts a value in its place. In an object the reader hands on a name before each value. -/
def put (value : Json) : List Frame → Draft
  | [] => .complete value
  | .array items :: frames => .pending (.array (value :: items) :: frames)
  | .field fields name :: frames => .pending (.object ((name, value) :: fields) :: frames)
  | .object fields :: frames => .pending (.object fields :: frames)

/-- Begins an array or object. -/
def enter (kind : Container) : Draft → Draft
  | pending frames =>
    match kind with
    | .array => .pending (.array [] :: frames)
    | .object => .pending (.object [] :: frames)
  | complete value => .complete value

/-- Adds a value without parts. -/
def scalar (value : Scalar) : Draft → Draft
  | pending frames => put (.scalar value) frames
  | complete value => .complete value

/-- Adds the name of a field. -/
def name (text : String) : Draft → Draft
  | pending (.object fields :: frames) => .pending (.field fields text :: frames)
  | draft => draft

/-- Completes the innermost array or object. -/
def leave : Draft → Draft
  | pending (.array items :: frames) => put (.array items.reverse) frames
  | pending (.object fields :: frames) => put (.object fields.reverse) frames
  | draft => draft

/-- The value, when it is complete. -/
def value? : Draft → Option Json
  | pending _ => none
  | complete value => some value

end Draft

/-- Builds a value by all rules and refuses none. -/
def building {ρ : Type} : Sink ρ Draft where
  manner _ := .strict
  scalar draft value := .ok (draft.scalar value)
  enter draft kind := .ok (draft.enter kind)
  name draft text := .ok (draft.name text)
  leave draft := .ok draft.leave

/-- The first value of a text, and whether only blanks follow it. -/
def parse {ρ : Type} (limit : Nat) (text : String) : Except (Fault ρ) (Json × Bool) := do
  let (draft, clean) ← readInto limit building (.pending []) text
  match draft.value? with
  | some value => return (value, clean)
  | none => throw .endInValue

end KeyRules.Json
