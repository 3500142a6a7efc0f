import KeyRules.Json.Build

/-!
# KeyRules — handing a value to a sink

A reader tells a sink of a text part by part. Here a sink is told of a value as a whole, or of as
much of it as was built so far. A sink may ask for an array to end, and then an item is refused
before anything is told of it. It may also skip a part, where strings are read with less care than
a value is built with; a sink that skips must not look at their texts.

* `Sink.feed` — hands a value to a sink.
* `Sink.replay`, `Sink.told` — hand on what is there of a value.
* `told_put` — a complete value is told after everything around it.
* `step_unpaired`, `closes_unpaired` — a string that is skipped, character by character.
-/

namespace KeyRules.Json

variable {ρ σ : Type}

/-! ## Handing a value to a sink -/

namespace Sink

/-- Lets a value begin, unless it would follow an item in an array that has all its items. -/
def room (sink : Sink ρ σ) (taken : Bool) (content : σ) : Except (Fault ρ) σ :=
  if taken ∧ sink.manner content = .full then .error .trailingCharacters else pure content

mutual

/-- Hands a value to a sink, part by part. -/
def feed (sink : Sink ρ σ) : Json → σ → Except (Fault ρ) σ
  | .scalar value, content => (sink.scalar content value).mapError .refused
  | .array items, content => do
    let content ← (sink.enter content .array).mapError .refused
    let content ← sink.feedItems false items content
    (sink.leave content).mapError .refused
  | .object fields, content => do
    let content ← (sink.enter content .object).mapError .refused
    let content ← sink.feedFields fields content
    (sink.leave content).mapError .refused

/-- Hands items to a sink, of which the first may follow others. -/
def feedItems (sink : Sink ρ σ) : Bool → List Json → σ → Except (Fault ρ) σ
  | _, [], content => pure content
  | taken, item :: items, content => do
    let content ← sink.room taken content
    let content ← sink.feed item content
    sink.feedItems true items content

/-- Hands fields to a sink. -/
def feedFields (sink : Sink ρ σ) : List (String × Json) → σ → Except (Fault ρ) σ
  | [], content => pure content
  | (name, value) :: fields, content => do
    let content ← (sink.name content name).mapError .refused
    let content ← sink.feed value content
    sink.feedFields fields content

end

/-- A sink does not look at the texts of strings where it is told of parts to be skipped. -/
structure PassesText (sink : Sink ρ σ) : Prop where
  scalar : ∀ content text other, sink.manner content = .lax →
    sink.scalar content (.string text) = sink.scalar content (.string other)
  name : ∀ content text other, sink.manner content = .lax →
    sink.name content text = sink.name content other

end Sink

variable {sink : Sink ρ σ} {start : σ}

theorem room_false (content : σ) : sink.room false content = pure content :=
  if_neg fun h => Bool.false_ne_true h.1

/-- The items of an array are fed one after the other, so the last one can be split off. -/
theorem feedItems_concat (items : List Json) (item : Json) (taken : Bool) (content : σ) :
    sink.feedItems taken (items ++ [item]) content =
      sink.feedItems taken items content >>= sink.room (taken || !items.isEmpty) >>=
        sink.feed item := by
  induction items generalizing taken content with
  | nil => simp [Sink.feedItems]
  | cons first items ih => simp [Sink.feedItems, ih]

/-- The same for the fields of an object, whose name comes before the value. -/
theorem feedFields_concat (fields : List (String × Json)) (name : String) (value : Json)
    (content : σ) :
    sink.feedFields (fields ++ [(name, value)]) content =
      sink.feedFields fields content >>=
        (fun content => (sink.name content name).mapError .refused) >>= sink.feed value := by
  induction fields generalizing content with
  | nil => simp [Sink.feedFields]
  | cons first fields ih => simp [Sink.feedFields, ih]

/-! ## What is there of a value -/

/-- Whether an item stands before the value that is due. -/
def taken : List Frame → Bool
  | .array items :: _ => !items.isEmpty
  | _ => false

namespace Sink

/-- Hands the open arrays and objects to a sink, with what is there of each. -/
def replay (sink : Sink ρ σ) (start : σ) : List Frame → Except (Fault ρ) σ
  | [] => pure start
  | .array items :: frames => do
    let content ← sink.replay start frames
    let content ← sink.room (taken frames) content
    let content ← (sink.enter content .array).mapError .refused
    sink.feedItems false items.reverse content
  | .object fields :: frames => do
    let content ← sink.replay start frames
    let content ← sink.room (taken frames) content
    let content ← (sink.enter content .object).mapError .refused
    sink.feedFields fields.reverse content
  | .field fields name :: frames => do
    let content ← sink.replay start frames
    let content ← sink.room (taken frames) content
    let content ← (sink.enter content .object).mapError .refused
    let content ← sink.feedFields fields.reverse content
    (sink.name content name).mapError .refused

/-- Hands a value, or what is there of it, to a sink. -/
def told (sink : Sink ρ σ) (start : σ) : Draft → Except (Fault ρ) σ
  | .pending frames => sink.replay start frames
  | .complete value => sink.feed value start

end Sink

/-- A value can go into the innermost array or object, and once that is complete into the next. -/
def Ready (frames : List Frame) : Prop :=
  ∀ frame ∈ frames, ∀ fields, frame ≠ .object fields

variable {frames : List Frame} {value : Json}

theorem ready_nil : Ready [] := by
  simp [Ready]

theorem ready_array {items : List Json} : Ready (.array items :: frames) ↔ Ready frames := by
  simp [Ready]

theorem ready_field {fields : List (String × Json)} {name : String} :
    Ready (.field fields name :: frames) ↔ Ready frames := by
  simp [Ready]

/-- A complete value is told after everything around it. -/
theorem told_put (hready : Ready frames) (value : Json) :
    sink.told start (Draft.put value frames) =
      sink.replay start frames >>= sink.room (taken frames) >>= sink.feed value := by
  match frames with
  | [] => simp [Draft.put, Sink.told, Sink.replay, taken, room_false]
  | .array items :: frames =>
    -- the item goes behind those that are there, and they decide whether there is room for it
    rw [Draft.put, Sink.told, Sink.replay, Sink.replay, List.reverse_cons, taken]
    simp only [feedItems_concat, Bool.false_or, List.isEmpty_reverse, bind_assoc]
  | .field fields name :: frames =>
    simp [Draft.put, Sink.told, Sink.replay, taken, feedFields_concat, room_false]
  | .object fields :: frames => exact absurd rfl (hready _ (by simp) fields)

/-! ## Strings that are skipped -/

variable {c : Char}

/-- Where a lax reader stands when a strict one stands at this place. -/
def OpenString.Place.unpaired : OpenString.Place → OpenString.Place
  | .unit _ bytes value => .unit none bytes value
  | .lead _ => .between
  | .leadBackslash _ => .backslash
  | place => place

/-- After an escaped code unit a reader that skips stands between two characters. -/
theorem pushUnit_unpaired {o next : OpenString} {lead : Option Nat} {unit : Nat}
    (h : o.pushUnit lead unit = (.ok next : Except (Fault ρ) OpenString)) :
    next.place.unpaired = .between := by
  cases lead with
  | none =>
    rw [OpenString.pushUnit] at h
    split at h
    · cases h
    -- a leading surrogate waits for the other half, but not where strings are skipped
    split at h
    · obtain rfl := Except.ok.inj h
      rfl
    · obtain rfl := Except.ok.inj h
      rfl
  | some lead =>
    rw [OpenString.pushUnit] at h
    split at h
    · obtain rfl := Except.ok.inj h
      rfl
    · cases h

/-- A reader that skips goes on in a string whenever one that builds a value does. -/
theorem step_unpaired {o other next : OpenString} (hplace : other.place = o.place.unpaired)
    (h : o.step true c = (.ok next : Except (Fault ρ) OpenString)) :
    ∃ after, other.step false c = (.ok after : Except (Fault ρ) OpenString) ∧
      after.place = next.place.unpaired := by
  obtain ⟨reversed, place⟩ := o
  obtain ⟨reversed', place'⟩ := other
  obtain rfl : place' = place.unpaired := hplace
  -- what the strict reader goes on with decides the character, place by place
  unfold OpenString.step at h ⊢
  cases place with
  | between =>
    dsimp only [OpenString.Place.unpaired] at h ⊢
    split at h
    · obtain rfl := Except.ok.inj h
      exact ⟨_, if_pos ‹_›, rfl⟩
    split at h
    · cases h
    · obtain rfl := Except.ok.inj h
      exact ⟨_, (if_neg ‹_›).trans (if_neg ‹_›), rfl⟩
  | backslash =>
    dsimp only [OpenString.Place.unpaired] at h ⊢
    split at h
    · obtain rfl := Except.ok.inj h
      exact ⟨_, if_pos ‹_›, rfl⟩
    split at h
    · obtain rfl := Except.ok.inj h
      exact ⟨_, if_neg ‹_›, rfl⟩
    · cases h
  | unit lead bytes value =>
    dsimp only [OpenString.Place.unpaired] at h ⊢
    split at h
    · obtain rfl := Except.ok.inj h
      exact ⟨_, if_pos ‹_›, rfl⟩
    split at h
    · cases h
    · exact ⟨_, if_neg ‹_›, (pushUnit_unpaired h).symm⟩
  | lead unit =>
    -- here the strict reader takes nothing but a backslash, and the other one takes that as well
    dsimp only [OpenString.Place.unpaired] at h ⊢
    split at h
    · obtain rfl := Except.ok.inj h
      exact ⟨_, if_pos ‹_›, rfl⟩
    · cases h
  | leadBackslash unit =>
    dsimp only [OpenString.Place.unpaired] at h ⊢
    split at h
    · obtain rfl := Except.ok.inj h
      exact ⟨_, if_pos ‹_›, rfl⟩
    · cases h

/-- Both readers see the end of a string at the same character. -/
theorem closes_unpaired (ρ : Type) {o other : OpenString}
    (hplace : other.place = o.place.unpaired)
    (h : o.closes c = true ∨ ∃ next, o.step true c = (.ok next : Except (Fault ρ) OpenString)) :
    other.closes c = o.closes c := by
  obtain ⟨reversed, place⟩ := o
  obtain ⟨reversed', place'⟩ := other
  obtain rfl : place' = place.unpaired := hplace
  -- only after a leading surrogate do the places differ, and there a quote is a fault
  by_cases hlead : ∃ unit, place = .lead unit
  · obtain ⟨unit, rfl⟩ := hlead
    rcases h with h | ⟨next, h⟩
    · simp [OpenString.closes] at h
    · simp only [OpenString.step] at h
      split at h
      · rename_i hc
        subst hc
        rfl
      · cases h
  · cases place with
    | lead unit => exact absurd ⟨unit, rfl⟩ hlead
    | _ => rfl

end KeyRules.Json
