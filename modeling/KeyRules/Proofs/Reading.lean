import KeyRules.Json.Build
import Mathlib.Logic.Basic

/-!
# KeyRules — what a reader does with a character

What a character does depends on the place of the reader, and for the beginning of a value on the
character alone; a sink comes in only where something is complete. Here each function of the reader
is opened once, for any sink. From that it follows that what holds of the state of a sink, and is
kept by each thing the sink may be told, holds after every text.

* `begin_cases`, `separate_eq`, `advance_eq` and others — one place of the reader each.
* `Sink.Keeps` — what is kept whatever a sink is told.
* `readInto_keeps` — whole texts.
-/

namespace KeyRules.Json

variable {ρ σ τ : Type} {limit : Nat} {c : Char} {place : Place}

theorem bind_eq_ok {ε α β : Type} {x : Except ε α} {f : α → Except ε β} {b : β} :
    x >>= f = .ok b ↔ ∃ a, x = .ok a ∧ f a = .ok b := by
  cases x <;> simp [bind, Except.bind]

theorem mapError_eq_ok {ε δ α : Type} {x : Except ε α} {f : ε → δ} {a : α} :
    x.mapError f = .ok a ↔ x = .ok a := by
  cases x with
  | error e => exact ⟨nofun, nofun⟩
  | ok b => exact ⟨fun h => congrArg Except.ok (Except.ok.inj h),
      fun h => congrArg Except.ok (Except.ok.inj h)⟩

/-! ## Places -/

/-- Whether the beginning of a value without parts was read. -/
def Place.begun : Place → Bool
  | .word _ _ | .numeral _ | .string false _ => true
  | _ => false

/-- A place between two characters of a string, or in no string. -/
def Place.IsFresh : Place → Prop
  | .string _ o => o.place = .between
  | _ => True

/-- Where a reader stands after the beginning of an array or object. -/
def Container.opening : Container → Place
  | .array => .firstItem
  | .object => .firstName

/-- Where a reader stands after a comma in an array or object. -/
def Container.afterComma : Container → Place
  | .array => .nextItem
  | .object => .nextName

/-- The bracket that ends an array or object. -/
def Container.closer : Container → Char
  | .array => ']'
  | .object => '\x7d'

/-- Behind a value nothing is begun. -/
theorem isFresh_afterValue (enclosing : List Container) :
    (State.afterValue enclosing).IsFresh := by
  unfold State.afterValue
  split <;> trivial

/-! ## One character -/

/-- A digit always begins a number. -/
theorem digit_step (ρ : Type) (n : Numeral) {d : Nat} (hplace : n.place = .start)
    (hd : Numeral.digit? c = some d) :
    ∃ next, n.step c = (.ok next : Except (Fault ρ) Numeral) := by
  unfold Numeral.step
  rw [hplace, hd]
  cases d <;> exact ⟨_, rfl⟩

/-- What begins a value depends on the character alone. -/
theorem begin_cases (ρ : Type) (limit : Nat) (c : Char) :
    (∃ place : Place, place.begun = true ∧ place.IsFresh ∧
      ∀ {τ : Type} (sink : Sink ρ τ) (s : State τ),
        s.begin limit sink c = .ok { s with place }) ∨
    (∃ kind : Container, ∀ {τ : Type} (sink : Sink ρ τ) (s : State τ),
      s.begin limit sink c = s.enter limit sink kind) ∨
    ∀ {τ : Type} (sink : Sink ρ τ) (s : State τ), s.begin limit sink c = .error .expectedValue := by
  by_cases hmarks : c ∈ ['n', 't', 'f', '"', '[', '\x7b', '-']
  · -- the letters of the three words, a quote, two brackets and the sign
    simp only [List.mem_cons, List.not_mem_nil, or_false] at hmarks
    rcases hmarks with rfl | rfl | rfl | rfl | rfl | rfl | rfl
    · exact Or.inl ⟨.word ['u', 'l', 'l'] .null, rfl, trivial, fun _ _ => rfl⟩
    · exact Or.inl ⟨.word ['r', 'u', 'e'] (.bool true), rfl, trivial, fun _ _ => rfl⟩
    · exact Or.inl ⟨.word ['a', 'l', 's', 'e'] (.bool false), rfl, trivial, fun _ _ => rfl⟩
    · exact Or.inl ⟨.string false {}, rfl, rfl, fun _ _ => rfl⟩
    · exact Or.inr (Or.inl ⟨.array, fun _ _ => rfl⟩)
    · exact Or.inr (Or.inl ⟨.object, fun _ _ => rfl⟩)
    · exact Or.inl ⟨.numeral { negative := true }, rfl, trivial, fun _ _ => rfl⟩
  · -- every other character begins a number or nothing
    cases hd : Numeral.digit? c with
    | none =>
      refine Or.inr (Or.inr fun sink s => ?_)
      unfold State.begin
      split <;> first | rw [hd] | simp at hmarks
    | some d =>
      obtain ⟨n, hn⟩ := digit_step ρ { negative := false } rfl hd
      refine Or.inl ⟨.numeral n, rfl, trivial, fun sink s => ?_⟩
      unfold State.begin
      split <;> first | (rw [hd, hn]; rfl) | simp at hmarks

variable {sink : Sink ρ σ} {s t : State σ}

/-- After an item or a field stands a comma or the end. -/
theorem separate_eq (sink : Sink ρ σ) (s : State σ) {kind : Container} {outer : List Container}
    (henclosing : s.enclosing = kind :: outer) (c : Char) :
    ∃ fault, s.separate sink c = if c = kind.closer then s.leave sink
      else if c = ',' then .ok { s with place := kind.afterComma } else .error fault := by
  unfold State.separate
  rw [henclosing]
  cases kind with
  | array =>
    -- what is wrong with any other character depends on whether more items are wanted
    by_cases hfull : sink.manner s.content = .full
    · exact ⟨.trailingCharacters, by simp only [List.head?_cons, if_pos hfull]; rfl⟩
    · exact ⟨.expectedArrayEnd, by simp only [List.head?_cons, if_neg hfull]; rfl⟩
  | object => exact ⟨.expectedObjectEnd, rfl⟩

/-- The letters of a word are read one by one. -/
theorem advance_word (sink : Sink ρ σ) {due : List Char} {v : Scalar}
    (hplace : s.place = .word due v) :
    s.advance limit sink c = if due.head? ≠ some c then .error .expectedWord
      else if due.length = 1 then s.scalar sink v
      else .ok { s with place := .word due.tail v } := by
  rw [State.advance, hplace]

/-- Inside of a number the next character goes on with it. -/
theorem advance_numeral (sink : Sink ρ σ) {n : Numeral} (hplace : s.place = .numeral n) :
    s.advance limit sink c = (n.step c : Except (Fault ρ) Numeral) >>= fun n =>
      .ok { s with place := .numeral n } := by
  rw [State.advance, hplace]
  rfl

/-- Inside of a string the next character goes on with it, or closes it and the string is known. -/
theorem advance_string (sink : Sink ρ σ) {isName : Bool} {o : OpenString}
    (hplace : s.place = .string isName o) :
    s.advance limit sink c = if o.closes c then
        if isName then s.name sink o.text else s.scalar sink (.string o.text)
      else (o.step (sink.manner s.content ≠ .lax) c : Except (Fault ρ) OpenString) >>= fun o =>
        .ok { s with place := .string isName o } := by
  rw [State.advance, hplace]
  rfl

/-- Where blanks mean nothing, they change nothing. -/
theorem advance_eq (sink : Sink ρ σ) (hbegun : s.place.begun = false)
    (hplain : ∀ isName o, s.place ≠ .string isName o) :
    s.advance limit sink c =
      if State.isBlank c then .ok s else s.structural limit sink c := by
  obtain ⟨enclosing, place, content⟩ := s
  cases place with
  | word due v => cases hbegun
  | numeral n => cases hbegun
  | string isName o => exact absurd rfl (hplain isName o)
  | _ => rfl

/-- A number is known when a character comes that does not belong to it. -/
theorem settle_numeral (sink : Sink ρ σ) {n : Numeral} (hplace : s.place = .numeral n) :
    s.settle sink c = if n.endsAt c then s.number sink n else .ok s := by
  rw [State.settle, hplace]

theorem settle_other (sink : Sink ρ σ) (hplace : ∀ n, s.place ≠ .numeral n) :
    s.settle sink c = .ok s := by
  unfold State.settle
  split
  · exact absurd ‹_› (hplace _)
  · rfl

theorem settleEnd_other (sink : Sink ρ σ) (hplace : ∀ n, s.place ≠ .numeral n) :
    s.settleEnd sink = .ok s := by
  unfold State.settleEnd
  split
  · exact absurd ‹_› (hplace _)
  · rfl

/-! ## What is kept -/

/-- Whatever a sink is told, its state keeps a property. -/
structure Sink.Keeps (sink : Sink ρ σ) (P : σ → Prop) : Prop where
  scalar : ∀ {content next v}, P content → sink.scalar content v = .ok next → P next
  enter : ∀ {content next kind}, P content → sink.enter content kind = .ok next → P next
  name : ∀ {content next text}, P content → sink.name content text = .ok next → P next
  leave : ∀ {content next}, P content → sink.leave content = .ok next → P next

namespace Sink.Keeps

variable {P : σ → Prop} {v : Scalar}

/-- A reader that told its sink something holds what the sink made of it. -/
theorem eq_ok_of_told {x : Except ρ σ} {enclosing : List Container}
    (h : (x.mapError .refused >>= fun content => .ok ⟨enclosing, place, content⟩) =
      (.ok t : Except (Fault ρ) (State σ))) : x = .ok t.content := by
  obtain ⟨content, hcontent, h⟩ := bind_eq_ok.mp h
  obtain rfl := Except.ok.inj h
  exact mapError_eq_ok.mp hcontent

/-- A scalar keeps what the sink keeps. -/
theorem of_scalar (hkeeps : sink.Keeps P) (hs : P s.content) (h : s.scalar sink v = .ok t) :
    P t.content :=
  hkeeps.scalar hs (eq_ok_of_told h)

theorem of_name {text : String} (hkeeps : sink.Keeps P) (hs : P s.content)
    (h : s.name sink text = .ok t) : P t.content :=
  hkeeps.name hs (eq_ok_of_told h)

theorem of_leave (hkeeps : sink.Keeps P) (hs : P s.content) (h : s.leave sink = .ok t) :
    P t.content :=
  hkeeps.leave hs (eq_ok_of_told h)

/-- Entering a container keeps it, if there is room at all. -/
theorem of_enter {kind : Container} (hkeeps : sink.Keeps P) (hs : P s.content)
    (h : s.enter limit sink kind = .ok t) : P t.content := by
  unfold State.enter at h
  by_cases hfull : sink.manner s.content = .strict ∧ limit ≤ s.enclosing.length
  · rw [if_pos hfull] at h
    cases h
  · rw [if_neg hfull] at h
    exact hkeeps.enter hs (eq_ok_of_told h)

/-- A number keeps it, in every form that the sink may ask for. -/
theorem of_number {n : Numeral} (hkeeps : sink.Keeps P) (hs : P s.content)
    (h : s.number sink n = .ok t) : P t.content := by
  unfold State.number at h
  -- a number that is too large is refused before the sink is told of it
  split at h
  · cases h
  · exact hkeeps.of_scalar hs h

/-- The first character of a value keeps it. -/
theorem of_begin (hkeeps : sink.Keeps P) (hs : P s.content) (h : s.begin limit sink c = .ok t) :
    P t.content := by
  rcases begin_cases ρ limit c with ⟨place, -, -, hbegin⟩ | ⟨kind, hbegin⟩ | hbegin
  · -- a value without parts is told when it is complete
    rw [hbegin] at h
    obtain rfl := Except.ok.inj h
    exact hs
  · rw [hbegin] at h
    exact hkeeps.of_enter hs h
  · rw [hbegin] at h
    cases h

theorem of_beginName (hs : P s.content)
    (h : s.beginName c = (.ok t : Except (Fault ρ) (State σ))) : P t.content := by
  unfold State.beginName at h
  split at h
  · obtain rfl := Except.ok.inj h
    exact hs
  · cases h

/-- The character between two values keeps it. -/
theorem of_separate (hkeeps : sink.Keeps P) (hs : P s.content)
    (h : s.separate sink c = .ok t) : P t.content := by
  unfold State.separate at h
  split at h
  all_goals
    split at h
    · exact hkeeps.of_leave hs h
    split at h
    · obtain rfl := Except.ok.inj h
      exact hs
  · cases h
  · split at h <;> cases h

/-- The first character behind a comma keeps it. -/
theorem of_beginNext (hkeeps : sink.Keeps P) (hs : P s.content)
    (h : s.beginNext limit sink c = .ok t) : P t.content := by
  unfold State.beginNext at h
  -- a sink that has all its items refuses every character
  split at h
  · split at h
    · cases h
    · exact hkeeps.of_begin hs h
  · exact hkeeps.of_begin hs h
  · cases h

/-- Characters outside of strings, words and numbers keep it. -/
theorem of_structural (hkeeps : sink.Keeps P) (hs : P s.content)
    (h : s.structural limit sink c = .ok t) : P t.content := by
  cases hplace : s.place with
  | firstItem =>
    simp only [State.structural, hplace] at h
    split at h
    · exact hkeeps.of_leave hs h
    · exact hkeeps.of_begin hs h
  | nextItem =>
    simp only [State.structural, hplace] at h
    exact hkeeps.of_beginNext hs h
  | firstName =>
    simp only [State.structural, hplace] at h
    split at h
    · exact hkeeps.of_leave hs h
    · exact of_beginName hs h
  | nextName =>
    simp only [State.structural, hplace] at h
    split at h
    · cases h
    · exact of_beginName hs h
  | colon =>
    simp only [State.structural, hplace] at h
    split at h
    · obtain rfl := Except.ok.inj h
      exact hs
    · cases h
  | separator =>
    simp only [State.structural, hplace] at h
    exact hkeeps.of_separate hs h
  | done clean =>
    simp only [State.structural, hplace] at h
    obtain rfl := Except.ok.inj h
    exact hs
  | value | word | numeral | string =>
    simp only [State.structural, hplace] at h
    exact hkeeps.of_begin hs h

/-- Each character keeps it, wherever it stands. -/
theorem of_advance (hkeeps : sink.Keeps P) (hs : P s.content)
    (h : s.advance limit sink c = .ok t) : P t.content := by
  cases hplace : s.place with
  | numeral n =>
    rw [advance_numeral sink hplace] at h
    obtain ⟨n, -, h⟩ := bind_eq_ok.mp h
    obtain rfl := Except.ok.inj h
    exact hs
  | word due v =>
    rw [advance_word sink hplace] at h
    split at h
    · cases h
    -- only the last letter tells the sink of the word
    split at h
    · exact hkeeps.of_scalar hs h
    · obtain rfl := Except.ok.inj h
      exact hs
  | string isName o =>
    rw [advance_string sink hplace] at h
    split at h
    · cases isName with
      | true => exact hkeeps.of_name hs h
      | false => exact hkeeps.of_scalar hs h
    · obtain ⟨o, -, h⟩ := bind_eq_ok.mp h
      obtain rfl := Except.ok.inj h
      exact hs
  | _ =>
    rw [advance_eq sink (by rw [hplace]; rfl) (by simp [hplace])] at h
    split at h
    · obtain rfl := Except.ok.inj h
      exact hs
    · exact hkeeps.of_structural hs h

theorem of_settle (hkeeps : sink.Keeps P) (hs : P s.content) (h : s.settle sink c = .ok t) :
    P t.content := by
  cases hplace : s.place with
  | numeral n =>
    rw [settle_numeral sink hplace] at h
    split at h
    · exact hkeeps.of_number hs h
    · obtain rfl := Except.ok.inj h
      exact hs
  | _ =>
    rw [settle_other sink (by simp [hplace])] at h
    obtain rfl := Except.ok.inj h
    exact hs

/-- So each step of reading keeps it. -/
theorem of_step (hkeeps : sink.Keeps P) (hs : P s.content) (h : s.step limit sink c = .ok t) :
    P t.content := by
  obtain ⟨u, hsettle, hadvance⟩ := bind_eq_ok.mp h
  exact hkeeps.of_advance (hkeeps.of_settle hs hsettle) hadvance

/-- And by induction on the characters all of them do. -/
theorem of_run (hkeeps : sink.Keeps P) (cs : List Char) (hs : P s.content)
    (h : cs.foldlM (State.step limit sink) s = .ok t) : P t.content := by
  induction cs generalizing s with
  | nil =>
    obtain rfl := Except.ok.inj h
    exact hs
  | cons c cs ih =>
    rw [List.foldlM_cons] at h
    obtain ⟨u, hstep, hrest⟩ := bind_eq_ok.mp h
    exact ih (hkeeps.of_step hs hstep) hrest

/-- The end of the text keeps it too. -/
theorem of_stop (hkeeps : sink.Keeps P) {result : σ × Bool} (hs : P s.content)
    (h : s.stop sink = .ok result) : P result.1 := by
  obtain ⟨u, hend, h⟩ := bind_eq_ok.mp h
  -- a number may still be open at the end of the text
  have hu : P u.content := by
    unfold State.settleEnd at hend
    split at hend
    · split at hend
      · exact hkeeps.of_number hs hend
      · cases hend
    · obtain rfl := Except.ok.inj hend
      exact hs
  split at h
  · obtain rfl := Except.ok.inj h
    exact hu
  · cases h

end Sink.Keeps

/-- What a sink keeps holds after every text that it does not refuse. -/
theorem readInto_keeps {P : σ → Prop} (hkeeps : sink.Keeps P) {start : σ} (hstart : P start)
    {text : String} {result : σ × Bool} (h : readInto limit sink start text = .ok result) :
    P result.1 := by
  obtain ⟨s, hrun, hstop⟩ := bind_eq_ok.mp h
  exact hkeeps.of_stop (hkeeps.of_run text.toList hstart hrun) hstop

end KeyRules.Json
