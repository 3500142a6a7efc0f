import KeyRules.Json.Numeral
import KeyRules.Json.Strings

/-!
# KeyRules — reading JSON texts

A JSON text is read one character at a time. The reader keeps which arrays and objects are open
and where it stands in the innermost one; what the text means is up to a sink, which is told of
every value, name, beginning and end as soon as it is complete, and which may refuse it. So of
several faults, in the form or in the content, the first one met is the answer.

The sink also says in which manner it wants the present part to be read: by all rules, only to be
skipped, or as an array that is full and must end.

* `Sink` — what is done with the content.
* `State`, `step`, `stop` — the reader, its step for one character and its end.
* `readInto` — what the sink holds after the first value of a text, and whether nothing but
  blanks follows that value.
-/

namespace KeyRules.Json

/-- The two kinds of values with parts. -/
inductive Container where
  /-- An array. -/
  | array
  /-- An object. -/
  | object
  deriving DecidableEq, Repr

/-- How a part of a text is to be read. -/
inductive Manner where
  /-- By all rules. -/
  | strict
  /-- To be skipped: nesting may be of any depth, numbers of any size, and escaped surrogates need
  no partner. -/
  | lax
  /-- As an array that has all its items. -/
  | full
  deriving DecidableEq, Repr

/-- What is done with the content of a text: a state of type `σ`, and how it changes. -/
structure Sink (ρ σ : Type) where
  /-- How the present part is to be read. -/
  manner : σ → Manner
  /-- Takes up a value without parts. -/
  scalar : σ → Scalar → Except ρ σ
  /-- Takes up the beginning of an array or object. -/
  enter : σ → Container → Except ρ σ
  /-- Takes up the name of a field. -/
  name : σ → String → Except ρ σ
  /-- Takes up the end of the innermost array or object. -/
  leave : σ → Except ρ σ

/-- Where a reader stands. -/
inductive Place where
  /-- Before a value. -/
  | value
  /-- After the beginning of an array. -/
  | firstItem
  /-- After a comma in an array. -/
  | nextItem
  /-- After the beginning of an object. -/
  | firstName
  /-- After a comma in an object. -/
  | nextName
  /-- After the name of a field. -/
  | colon
  /-- After an item or a field. -/
  | separator
  /-- In a word, with the letters still due and the value it stands for. -/
  | word (due : List Char) (value : Scalar)
  /-- In a number. -/
  | numeral (n : Numeral)
  /-- In a string, which may be the name of a field. -/
  | string (isName : Bool) (text : OpenString)
  /-- After the value of the text; `clean` as long as only blanks follow. -/
  | done (clean : Bool)
  deriving Repr

/-- A reader between two characters. -/
structure State (σ : Type) where
  /-- The open arrays and objects, the innermost one first. -/
  enclosing : List Container := []
  /-- Where the reader stands. -/
  place : Place := .value
  /-- The state of the sink. -/
  content : σ

namespace State

variable {ρ σ : Type}

/-- The four blanks of JSON texts. -/
def isBlank (c : Char) : Bool :=
  c = ' ' || c = '\t' || c = '\n' || c = '\r'

/-! ## Taking up content -/

/-- Where a reader stands after a value. -/
def afterValue (enclosing : List Container) : Place :=
  if enclosing.isEmpty then .done true else .separator

/-- Hands a value without parts to the sink. -/
def scalar (sink : Sink ρ σ) (s : State σ) (v : Scalar) : Except (Fault ρ) (State σ) := do
  let content ← (sink.scalar s.content v).mapError .refused
  return { s with place := afterValue s.enclosing, content }

/-- Hands the name of a field to the sink. -/
def name (sink : Sink ρ σ) (s : State σ) (text : String) : Except (Fault ρ) (State σ) := do
  let content ← (sink.name s.content text).mapError .refused
  return { s with place := .colon, content }

/-- Begins an array or object, unless too many are open already. -/
def enter (limit : Nat) (sink : Sink ρ σ) (s : State σ) (kind : Container) :
    Except (Fault ρ) (State σ) := do
  if sink.manner s.content = .strict ∧ limit ≤ s.enclosing.length then throw .nestingTooDeep
  let content ← (sink.enter s.content kind).mapError .refused
  let place := match kind with
    | .array => .firstItem
    | .object => .firstName
  return { enclosing := kind :: s.enclosing, place, content }

/-- Ends the innermost array or object. -/
def leave (sink : Sink ρ σ) (s : State σ) : Except (Fault ρ) (State σ) := do
  let content ← (sink.leave s.content).mapError .refused
  let enclosing := s.enclosing.tail
  return { enclosing, place := afterValue enclosing, content }

/-- Hands a number to the sink; a strict reader refuses one that exceeds every double. -/
def number (sink : Sink ρ σ) (s : State σ) (n : Numeral) : Except (Fault ρ) (State σ) := do
  if sink.manner s.content ≠ .lax ∧ !n.number.isFinite then throw .numberOutOfRange
  s.scalar sink (.number n.number)

/-! ## One character -/

/-- Reads the first character of a value. -/
def begin (limit : Nat) (sink : Sink ρ σ) (s : State σ) (c : Char) :
    Except (Fault ρ) (State σ) :=
  match c with
  | 'n' => .ok { s with place := .word ['u', 'l', 'l'] .null }
  | 't' => .ok { s with place := .word ['r', 'u', 'e'] (.bool true) }
  | 'f' => .ok { s with place := .word ['a', 'l', 's', 'e'] (.bool false) }
  | '"' => .ok { s with place := .string false {} }
  | '[' => s.enter limit sink .array
  | '{' => s.enter limit sink .object
  | '-' => .ok { s with place := .numeral { negative := true } }
  | c =>
    match Numeral.digit? c with
    | some _ => do return { s with place := .numeral (← Numeral.step { negative := false } c) }
    | none => .error .expectedValue

/-- Reads a character before the name of a field. -/
def beginName (s : State σ) (c : Char) : Except (Fault ρ) (State σ) :=
  if c = '"' then .ok { s with place := .string true {} } else .error .keyNotString

/-- Reads a character after an item or a field. -/
def separate (sink : Sink ρ σ) (s : State σ) (c : Char) : Except (Fault ρ) (State σ) :=
  match s.enclosing.head? with
  | some .object =>
    if c = '}' then s.leave sink
    else if c = ',' then .ok { s with place := .nextName }
    else .error .expectedObjectEnd
  | _ =>
    if c = ']' then s.leave sink
    else if c = ',' then .ok { s with place := .nextItem }
    else if sink.manner s.content = .full then .error .trailingCharacters
    else .error .expectedArrayEnd

/-- Reads a character after a comma in an array. -/
def beginNext (limit : Nat) (sink : Sink ρ σ) (s : State σ) (c : Char) :
    Except (Fault ρ) (State σ) :=
  match sink.manner s.content with
  | .strict => if c = ']' then .error .trailingComma else s.begin limit sink c
  | .lax => s.begin limit sink c
  | .full => .error (if c = ']' then .trailingComma else .trailingCharacters)

/-- Reads a character at a place where blanks mean nothing, and the character is none. -/
def structural (limit : Nat) (sink : Sink ρ σ) (s : State σ) (c : Char) :
    Except (Fault ρ) (State σ) :=
  match s.place with
  | .firstItem => if c = ']' then s.leave sink else s.begin limit sink c
  | .nextItem => s.beginNext limit sink c
  | .firstName => if c = '}' then s.leave sink else s.beginName c
  | .nextName =>
    if c = '}' ∧ sink.manner s.content ≠ .lax then .error .trailingComma else s.beginName c
  | .colon => if c = ':' then .ok { s with place := .value } else .error .expectedColon
  | .separator => s.separate sink c
  | .done _ => .ok { s with place := .done false }
  | _ => s.begin limit sink c

/-- Ends a number that a character does not go on in. -/
def settle (sink : Sink ρ σ) (s : State σ) (c : Char) : Except (Fault ρ) (State σ) :=
  match s.place with
  | .numeral n => if n.endsAt c then s.number sink n else .ok s
  | _ => .ok s

/-- Reads a character when no number ends before it. -/
def advance (limit : Nat) (sink : Sink ρ σ) (s : State σ) (c : Char) :
    Except (Fault ρ) (State σ) :=
  match s.place with
  | .numeral n => do return { s with place := .numeral (← n.step c) }
  | .word due v =>
    if due.head? ≠ some c then .error .expectedWord
    else if due.length = 1 then s.scalar sink v
    else .ok { s with place := .word due.tail v }
  | .string isName t =>
    if t.closes c then if isName then s.name sink t.text else s.scalar sink (.string t.text)
    else do
      return { s with place := .string isName (← t.step (sink.manner s.content ≠ .lax) c) }
  | _ => if isBlank c then .ok s else s.structural limit sink c

/-- Reads a character. -/
def step (limit : Nat) (sink : Sink ρ σ) (s : State σ) (c : Char) :
    Except (Fault ρ) (State σ) := do
  (← s.settle sink c).advance limit sink c

/-! ## The end of the text -/

/-- Ends a number at the end of the text. -/
def settleEnd (sink : Sink ρ σ) (s : State σ) : Except (Fault ρ) (State σ) :=
  match s.place with
  | .numeral n =>
    if n.isComplete then s.number sink n
    else .error (if sink.manner s.content = .lax then .invalidNumber else .endInValue)
  | _ => .ok s

/-- What is missing when the text ends here. -/
def missing (sink : Sink ρ σ) (s : State σ) : Fault ρ :=
  match s.place with
  | .firstItem => .endInArray
  | .nextItem => if sink.manner s.content = .full then .trailingCharacters else .endInValue
  | .firstName | .colon => .endInObject
  | .nextName => if sink.manner s.content = .lax then .endInObject else .endInValue
  | .separator => if s.enclosing.head? = some .object then .endInObject else .endInArray
  | .string _ _ => .endInString
  | _ => .endInValue

/-- Ends the text: what the sink holds, and whether only blanks followed the value. -/
def stop (sink : Sink ρ σ) (s : State σ) : Except (Fault ρ) (σ × Bool) := do
  let s ← s.settleEnd sink
  match s.place with
  | .done clean => return (s.content, clean)
  | _ => throw (s.missing sink)

end State

/-- Reads a text into a sink, with at most `limit` arrays and objects open at once. -/
def readInto {ρ σ : Type} (limit : Nat) (sink : Sink ρ σ) (start : σ) (text : String) :
    Except (Fault ρ) (σ × Bool) := do
  (← text.toList.foldlM (State.step limit sink) { content := start }).stop sink

/-- An answer read from a text, which holds only if nothing but blanks follows the value. -/
def wholly {ρ α : Type} (answer : α) (clean : Bool) : Except (Fault ρ) α :=
  if clean then .ok answer else .error .trailingCharacters

/-- How many arrays and objects may be open at once. -/
def nestingLimit : Nat := 127

end KeyRules.Json
