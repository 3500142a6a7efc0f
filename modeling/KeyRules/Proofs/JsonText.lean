import KeyRules.Json.Build
import KeyRules.Json.Write
import Mathlib.Logic.Basic

/-!
# KeyRules — JSON text and back

The text of a value reads back as the value, as long as no more arrays and objects are open at once
than the reader allows; otherwise the reader says so. Numbers are left out: a double is not told by
its digits alone. The reader takes one character after another and keeps what is open, so what it
does with the text of a value is said for any place where a value is due and for any text behind.

* `State.read` — reading on from some place.
* `read_writeString` — what is read inside the quotes is the string that was written.
* `nesting`, `NumberFree` — how deep a value goes, and values without numbers.
* `read_write` — the text of a value, wherever a value is due.
* `parse_render` — the text of a value on its own.
* `render_injective` — different values have different texts.
-/

namespace KeyRules.Json

/-- Reads on from some place, by all rules, building a value. -/
def State.read (ρ : Type) (limit : Nat) (s : State Draft) (cs : List Char) :
    Except (Fault ρ) (State Draft) :=
  cs.foldlM (State.step limit building) s

variable {ρ : Type} {limit : Nat} {s t : State Draft} {c : Char} {cs rest : List Char}
  {fault : Fault ρ} {enclosing : List Container} {draft : Draft} {isName : Bool}

/-- Reading goes on with the next character from the state of this step. -/
theorem read_step (h : s.step limit building c = (.ok t : Except (Fault ρ) (State Draft))) :
    State.read ρ limit s (c :: cs) = State.read ρ limit t cs := by
  rw [State.read, List.foldlM_cons, h]
  rfl

/-- Reading stops at the first fault, whatever comes after it. -/
theorem read_stop (h : s.step limit building c = .error fault) :
    State.read ρ limit s (c :: cs) = .error fault := by
  rw [State.read, List.foldlM_cons, h]
  rfl

/-! ## Strings -/

/-- A hexadecimal digit reads back as its value. -/
theorem hexValue?_hexDigit : ∀ n < 16, hexValue? (hexDigit n) = some n := by
  decide

theorem utf8Size_hexDigit : ∀ n < 16, (hexDigit n).utf8Size = 1 := by
  decide

/-- In a string, a character that does not close it goes on in the string. -/
theorem step_string {o o' : OpenString} (hopen : o.closes c = false)
    (hstep : o.step true c = (.ok o' : Except (Fault ρ) OpenString)) :
    State.step limit building ⟨enclosing, .string isName o, draft⟩ c =
      (.ok ⟨enclosing, .string isName o', draft⟩ : Except (Fault ρ) (State Draft)) := by
  -- the three checks of a string step, as the definition has them
  have hadvance : State.step limit building ⟨enclosing, .string isName o, draft⟩ c =
      if o.closes c then if isName
        then State.name building ⟨enclosing, .string isName o, draft⟩ o.text
        else State.scalar building ⟨enclosing, .string isName o, draft⟩ (.string o.text)
      else (o.step true c : Except (Fault ρ) OpenString) >>= fun o =>
        .ok ⟨enclosing, .string isName o, draft⟩ := rfl
  rw [hadvance, hopen, if_neg Bool.false_ne_true, hstep]
  rfl

/-- A character is escaped by a letter, escaped by its number, or stands for itself. -/
theorem escape_cases (c : Char) :
    (∃ d, escape c = ['\\', d] ∧ d ≠ 'u' ∧ unescape? d = some c) ∨
    (c.toNat < 0x20 ∧
      escape c = ['\\', 'u', '0', '0', hexDigit (c.toNat / 16), hexDigit (c.toNat % 16)]) ∨
    (c ≠ '"' ∧ c ≠ '\\' ∧ 0x20 ≤ c.toNat ∧ escape c = [c]) := by
  -- seven letters, then the control characters, then all the others
  unfold escape
  split
  · exact Or.inl ⟨'"', rfl, by decide, by subst c; rfl⟩
  split
  · exact Or.inl ⟨'\\', rfl, by decide, by subst c; rfl⟩
  split
  · exact Or.inl ⟨'b', rfl, by decide, by subst c; rfl⟩
  split
  · exact Or.inl ⟨'t', rfl, by decide, by subst c; rfl⟩
  split
  · exact Or.inl ⟨'n', rfl, by decide, by subst c; rfl⟩
  split
  · exact Or.inl ⟨'f', rfl, by decide, by subst c; rfl⟩
  split
  · exact Or.inl ⟨'r', rfl, by decide, by subst c; rfl⟩
  split
  · exact Or.inr (Or.inl ⟨‹_›, rfl⟩)
  · exact Or.inr (Or.inr ⟨‹_›, ‹_›, Nat.le_of_not_lt ‹_›, rfl⟩)

/-- A character with a letter of its own is written as two. -/
theorem read_letter {d : Char} {reversed : List Char} (hd : d ≠ 'u') (hc : unescape? d = some c) :
    State.read ρ limit ⟨enclosing, .string isName ⟨reversed, .between⟩, draft⟩
        ('\\' :: d :: rest) =
      State.read ρ limit ⟨enclosing, .string isName ⟨c :: reversed, .between⟩, draft⟩ rest := by
  have hstep : OpenString.step true ⟨reversed, .backslash⟩ d =
      (.ok ⟨c :: reversed, .between⟩ : Except (Fault ρ) OpenString) := by
    simp [OpenString.step, hd, hc, OpenString.push]
  rw [read_step (step_string rfl rfl), read_step (step_string rfl hstep)]

/-- A character that needs no escape is written as it is. -/
theorem read_plain {reversed : List Char} (hquote : c ≠ '"') (hbackslash : c ≠ '\\')
    (hprint : 0x20 ≤ c.toNat) :
    State.read ρ limit ⟨enclosing, .string isName ⟨reversed, .between⟩, draft⟩ (c :: rest) =
      State.read ρ limit ⟨enclosing, .string isName ⟨c :: reversed, .between⟩, draft⟩ rest := by
  have hopen : OpenString.closes ⟨reversed, .between⟩ c = false := by
    simp [OpenString.closes, hquote]
  have hstep : OpenString.step true ⟨reversed, .between⟩ c =
      (.ok ⟨c :: reversed, .between⟩ : Except (Fault ρ) OpenString) := by
    simp [OpenString.step, hbackslash, Nat.not_lt.mpr hprint, OpenString.push]
  rw [read_step (step_string hopen hstep)]

/-- The third digit of an escaped number below 256. -/
theorem step_thirdDigit {n : Nat} {reversed : List Char} (hn : n < 16) :
    OpenString.step true ⟨reversed, .unit none 2 (some 0)⟩ (hexDigit n) =
      (.ok ⟨reversed, .unit none 3 (some n)⟩ : Except (Fault ρ) OpenString) := by
  simp [OpenString.step, utf8Size_hexDigit n hn, hexValue?_hexDigit n hn]

/-- The last digit gives the character, which is no half of a pair. -/
theorem step_lastDigit {n value : Nat} {reversed : List Char} (hn : n < 16)
    (hvalue : 16 * value + n < 0xD800) :
    OpenString.step true ⟨reversed, .unit none 3 (some value)⟩ (hexDigit n) =
      (.ok ⟨Char.ofNat (16 * value + n) :: reversed, .between⟩ :
        Except (Fault ρ) OpenString) := by
  -- below the surrogates the unit is neither half of a pair
  have htrail : OpenString.isTrail (16 * value + n) = false := by
    simp only [OpenString.isTrail, Bool.and_eq_false_iff, decide_eq_false_iff_not]
    omega
  have hlead : OpenString.isLead (16 * value + n) = false := by
    simp only [OpenString.isLead, Bool.and_eq_false_iff, decide_eq_false_iff_not]
    omega
  simp [OpenString.step, utf8Size_hexDigit n hn, hexValue?_hexDigit n hn, OpenString.pushUnit,
    htrail, hlead, OpenString.push]

/-- Any other control character is written by its number, in four digits. -/
theorem read_number {reversed : List Char} (hcontrol : c.toNat < 0x20) :
    State.read ρ limit ⟨enclosing, .string isName ⟨reversed, .between⟩, draft⟩
        ('\\' :: 'u' :: '0' :: '0' :: hexDigit (c.toNat / 16) :: hexDigit (c.toNat % 16) :: rest) =
      State.read ρ limit ⟨enclosing, .string isName ⟨c :: reversed, .between⟩, draft⟩ rest := by
  have hsum : 16 * (c.toNat / 16) + c.toNat % 16 = c.toNat := Nat.div_add_mod c.toNat 16
  -- two zeros, and then the two digits of the number
  have hfirst : OpenString.step true ⟨reversed, .unit none 0 (some 0)⟩ '0' =
      (.ok ⟨reversed, .unit none 1 (some 0)⟩ : Except (Fault ρ) OpenString) := rfl
  have hsecond : OpenString.step true ⟨reversed, .unit none 1 (some 0)⟩ '0' =
      (.ok ⟨reversed, .unit none 2 (some 0)⟩ : Except (Fault ρ) OpenString) := rfl
  have hthird : OpenString.step true ⟨reversed, .unit none 2 (some 0)⟩ (hexDigit (c.toNat / 16)) =
      (.ok ⟨reversed, .unit none 3 (some (c.toNat / 16))⟩ : Except (Fault ρ) OpenString) :=
    step_thirdDigit (by omega)
  have hlast : OpenString.step true ⟨reversed, .unit none 3 (some (c.toNat / 16))⟩
      (hexDigit (c.toNat % 16)) =
      (.ok ⟨c :: reversed, .between⟩ : Except (Fault ρ) OpenString) := by
    rw [step_lastDigit (by omega) (by omega), hsum, Char.ofNat_toNat]
  rw [read_step (step_string rfl rfl), read_step (step_string rfl rfl),
    read_step (step_string rfl hfirst), read_step (step_string rfl hsecond),
    read_step (step_string rfl hthird), read_step (step_string rfl hlast)]

/-- The escaped form of a character reads as the character. -/
theorem read_escape (c : Char) (reversed : List Char) :
    State.read ρ limit ⟨enclosing, .string isName ⟨reversed, .between⟩, draft⟩
        (escape c ++ rest) =
      State.read ρ limit ⟨enclosing, .string isName ⟨c :: reversed, .between⟩, draft⟩ rest := by
  rcases escape_cases c with ⟨d, hescape, hd, hc⟩ | ⟨hcontrol, hescape⟩ |
    ⟨hquote, hbackslash, hprint, hescape⟩
  · rw [hescape]
    exact read_letter hd hc
  · rw [hescape]
    exact read_number hcontrol
  · rw [hescape]
    exact read_plain hquote hbackslash hprint

/-- The escaped characters of a text read back as the text. -/
theorem read_escapeAll (cs reversed : List Char) :
    State.read ρ limit ⟨enclosing, .string isName ⟨reversed, .between⟩, draft⟩
        (cs.flatMap escape ++ rest) =
      State.read ρ limit ⟨enclosing, .string isName ⟨cs.reverse ++ reversed, .between⟩, draft⟩
        rest := by
  induction cs generalizing reversed with
  | nil => rfl
  | cons c cs ih => simp [read_escape, ih]

/-- What is read up to the closing quote is the text that was written, and it is taken up as the
name of a field or as a value. -/
theorem read_text (isName : Bool) (text : String) :
    State.read ρ limit ⟨enclosing, .string isName {}, draft⟩
        (text.toList.flatMap escape ++ '"' :: rest) =
      State.read ρ limit
        (if isName then ⟨enclosing, .colon, draft.name text⟩
          else ⟨enclosing, State.afterValue enclosing, draft.scalar (.string text)⟩) rest := by
  have hclose (reversed : List Char) :
      State.step limit building ⟨enclosing, .string isName ⟨reversed, .between⟩, draft⟩ '"' =
        (.ok (if isName then ⟨enclosing, .colon, draft.name (String.ofList reversed.reverse)⟩
          else ⟨enclosing, State.afterValue enclosing,
            draft.scalar (.string (String.ofList reversed.reverse))⟩) :
          Except (Fault ρ) (State Draft)) := by
    cases isName <;> rfl
  -- the string starts out empty, so what was read is the text and nothing in front of it
  rw [read_escapeAll, List.append_nil, read_step (hclose _), List.reverse_reverse,
    String.ofList_toList]

/-! ## Values -/

mutual

/-- How many arrays and objects are open at once in the text of a value. -/
def nesting : Json → Nat
  | scalar _ => 0
  | array items => 1 + nestingItems items
  | object fields => 1 + nestingFields fields

/-- The largest nesting among several items. -/
def nestingItems : List Json → Nat
  | [] => 0
  | item :: items => max (nesting item) (nestingItems items)

/-- The largest nesting among the values of several fields. -/
def nestingFields : List (String × Json) → Nat
  | [] => 0
  | (_, value) :: fields => max (nesting value) (nestingFields fields)

end

mutual

/-- There is no number in a value. -/
def NumberFree : Json → Prop
  | scalar (.number _) => False
  | scalar _ => True
  | array items => NumberFreeItems items
  | object fields => NumberFreeFields fields

/-- There is no number in several items. -/
def NumberFreeItems : List Json → Prop
  | [] => True
  | item :: items => NumberFree item ∧ NumberFreeItems items

/-- There is no number in the values of several fields. -/
def NumberFreeFields : List (String × Json) → Prop
  | [] => True
  | (_, value) :: fields => NumberFree value ∧ NumberFreeFields fields

end

/-- A place at which a value may start. -/
def Due (place : Place) : Prop :=
  place = .value ∨ place = .firstItem ∨ place = .nextItem

variable {place : Place} {frames : List Frame}

/-- Where a value is due, a character that is no blank and no closing bracket begins one. -/
theorem step_due (hdue : Due place) (hblank : State.isBlank c = false) (hclose : c ≠ ']') :
    State.step limit building ⟨enclosing, place, draft⟩ c =
      (State.begin limit building ⟨enclosing, place, draft⟩ c : Except (Fault ρ) (State Draft)) := by
  have hstep : State.step limit building ⟨enclosing, place, draft⟩ c =
      (if State.isBlank c then .ok ⟨enclosing, place, draft⟩
        else State.structural limit building ⟨enclosing, place, draft⟩ c :
        Except (Fault ρ) (State Draft)) := by
    rcases hdue with rfl | rfl | rfl <;> rfl
  rw [hstep, hblank, if_neg Bool.false_ne_true]
  rcases hdue with rfl | rfl | rfl
  · rfl
  · simp only [State.structural, if_neg hclose]
  · simp only [State.structural, State.beginNext, building, if_neg hclose]

/-- There is room for one array or object more. -/
theorem enter_room (kind : Container) (hroom : enclosing.length < limit) :
    State.enter limit building ⟨enclosing, place, draft⟩ kind =
      (.ok ⟨kind :: enclosing, match kind with | .array => .firstItem | .object => .firstName,
        draft.enter kind⟩ : Except (Fault ρ) (State Draft)) := by
  unfold State.enter
  rw [if_neg fun h => Nat.not_le.mpr hroom h.2]
  rfl

/-- At the limit no further container is entered. -/
theorem enter_full (kind : Container) (hfull : limit ≤ enclosing.length) :
    State.enter limit building ⟨enclosing, place, draft⟩ kind =
      (.error .nestingTooDeep : Except (Fault ρ) (State Draft)) := by
  unfold State.enter
  rw [if_pos ⟨rfl, hfull⟩]
  rfl

/-- A word such as null is read to its end, and then the value is there. -/
theorem read_word (v : Scalar) (due : List Char) (hdue : due ≠ []) :
    State.read ρ limit ⟨enclosing, .word due v, draft⟩ (due ++ rest) =
      State.read ρ limit ⟨enclosing, State.afterValue enclosing, draft.scalar v⟩ rest := by
  induction due with
  | nil => exact absurd rfl hdue
  | cons c due ih =>
    -- The last letter completes the word, any other leaves the rest of it due.
    have hstep : State.step limit building ⟨enclosing, .word (c :: due) v, draft⟩ c =
        (if due.length + 1 = 1
          then .ok ⟨enclosing, State.afterValue enclosing, draft.scalar v⟩
          else .ok ⟨enclosing, .word due v, draft⟩ : Except (Fault ρ) (State Draft)) := by
      show State.advance limit building ⟨enclosing, .word (c :: due) v, draft⟩ c = _
      simp only [State.advance, List.head?_cons, ne_eq, not_true_eq_false, if_false]
      rfl
    cases due with
    | nil => exact read_step (hstep.trans (if_pos rfl))
    | cons d due =>
      rw [← ih (List.cons_ne_nil d due)]
      exact read_step (hstep.trans (if_neg (by simp)))

/-- A value without parts, wherever a value is due. -/
theorem read_writeScalar (v : Scalar) (hv : NumberFree (.scalar v)) (hdue : Due place) :
    State.read ρ limit ⟨enclosing, place, .pending frames⟩ (writeScalar v ++ rest) =
      State.read ρ limit ⟨enclosing, State.afterValue enclosing, Draft.put (.scalar v) frames⟩
        rest := by
  cases v with
  | null =>
    exact (read_step (step_due hdue rfl (by decide))).trans (read_word .null _ (by simp))
  | bool value =>
    cases value with
    | true =>
      exact (read_step (step_due hdue rfl (by decide))).trans (read_word (.bool true) _ (by simp))
    | false =>
      exact (read_step (step_due hdue rfl (by decide))).trans (read_word (.bool false) _ (by simp))
  | number => simp [NumberFree] at hv
  | string text =>
    rw [writeScalar, writeString, List.cons_append, List.append_assoc]
    exact (read_step (step_due hdue rfl (by decide))).trans (read_text false text)

/-- The name of a field with its colon, where a name is due. -/
theorem read_writeName (name : String) {fields : List (String × Json)}
    (hdue : place = .firstName ∨ place = .nextName) :
    State.read ρ limit ⟨.object :: enclosing, place, .pending (.object fields :: frames)⟩
        (writeString name ++ ':' :: rest) =
      State.read ρ limit ⟨.object :: enclosing, .value, .pending (.field fields name :: frames)⟩
        rest := by
  -- both places that wait for a name read a quotation mark alike
  have hquote : State.step limit building
      ⟨.object :: enclosing, place, .pending (.object fields :: frames)⟩ '"' =
      (.ok ⟨.object :: enclosing, .string true {}, .pending (.object fields :: frames)⟩ :
        Except (Fault ρ) (State Draft)) := by
    rcases hdue with rfl | rfl <;> rfl
  rw [writeString, List.cons_append, List.append_assoc, read_step hquote, List.singleton_append,
    read_text true name, if_pos rfl]
  exact read_step rfl

/-- One value fits and the others do, or not all fit. -/
theorem ite_max {α : Type} {k m n : Nat} {x y : α} :
    (if k + m ≤ limit then if k + n ≤ limit then x else y else y) =
      if k + max m n ≤ limit then x else y := by
  by_cases hm : k + m ≤ limit
  · rw [if_pos hm]
    exact if_congr (by omega) rfl rfl
  · rw [if_neg hm, if_neg (by omega)]

mutual

/-- The text of a value, wherever a value is due. -/
theorem read_write : ∀ (value : Json), NumberFree value →
    ∀ {enclosing : List Container} {place : Place} {frames : List Frame} {rest : List Char},
    Due place → enclosing.length ≤ limit →
    State.read ρ limit ⟨enclosing, place, .pending frames⟩ (write value ++ rest) =
      if enclosing.length + nesting value ≤ limit
        then State.read ρ limit ⟨enclosing, State.afterValue enclosing, Draft.put value frames⟩ rest
        else .error .nestingTooDeep
  | scalar v, hfree, enclosing, place, frames, rest, hdue, hopen => by
    rw [write, read_writeScalar v hfree hdue, nesting, Nat.add_zero, if_pos hopen]
  | array items, hfree, enclosing, place, frames, rest, hdue, hopen => by
    rw [write, List.cons_append, List.append_assoc, List.singleton_append, nesting, ← Nat.add_assoc]
    have hopener : State.step limit building ⟨enclosing, place, .pending frames⟩ '[' =
        (State.enter limit building ⟨enclosing, place, .pending frames⟩ .array :
          Except (Fault ρ) (State Draft)) :=
      step_due hdue rfl (by decide)
    -- Without room the array is refused at its bracket, before its items are looked at.
    rcases Nat.lt_or_ge enclosing.length limit with hroom | hfull
    · rw [read_step (hopener.trans (enter_room .array hroom))]
      exact read_writeItems items hfree (Or.inl rfl) (fun _ => rfl) hroom
    · rw [read_stop (hopener.trans (enter_full .array hfull)), if_neg (by omega)]
  | object fields, hfree, enclosing, place, frames, rest, hdue, hopen => by
    rw [write, List.cons_append, List.append_assoc, List.singleton_append, nesting, ← Nat.add_assoc]
    have hopener : State.step limit building ⟨enclosing, place, .pending frames⟩ '\x7b' =
        (State.enter limit building ⟨enclosing, place, .pending frames⟩ .object :
          Except (Fault ρ) (State Draft)) :=
      step_due hdue rfl (by decide)
    rcases Nat.lt_or_ge enclosing.length limit with hroom | hfull
    · rw [read_step (hopener.trans (enter_room .object hroom))]
      exact read_writeFields fields hfree (Or.inl rfl) (fun _ => rfl) hroom
    · rw [read_stop (hopener.trans (enter_full .object hfull)), if_neg (by omega)]

/-- The items of an array that is open, up to its end. -/
theorem read_writeItems : ∀ (items : List Json), NumberFreeItems items →
    ∀ {enclosing : List Container} {place : Place} {done : List Json} {frames : List Frame}
      {rest : List Char}, place = .firstItem ∨ place = .nextItem →
    (items = [] → place = .firstItem) → enclosing.length < limit →
    State.read ρ limit ⟨.array :: enclosing, place, .pending (.array done :: frames)⟩
        (writeItems items ++ ']' :: rest) =
      if enclosing.length + 1 + nestingItems items ≤ limit
        then State.read ρ limit ⟨enclosing, State.afterValue enclosing,
          Draft.put (.array (done.reverse ++ items)) frames⟩ rest
        else .error .nestingTooDeep
  | [], _, enclosing, place, done, frames, rest, _, hfirst, hroom => by
    obtain rfl := hfirst rfl
    rw [nestingItems, Nat.add_zero, if_pos (Nat.succ_le_of_lt hroom), List.append_nil]
    exact read_step rfl
  | [item], hfree, enclosing, place, done, frames, rest, hplace, _, hroom => by
    have hopen : (Container.array :: enclosing).length ≤ limit := hroom
    rw [writeItems, read_write item hfree.1 (Or.inr hplace) hopen, nestingItems, nestingItems,
      Nat.max_zero, List.length_cons, ← List.reverse_cons]
    exact if_congr Iff.rfl (read_step rfl) rfl
  | item :: next :: items, hfree, enclosing, place, done, frames, rest, hplace, _, hroom => by
    have hopen : (Container.array :: enclosing).length ≤ limit := hroom
    -- The other items are reached only if the first one fits.
    have hitems : State.read ρ limit
        ⟨.array :: enclosing, .separator, .pending (.array (item :: done) :: frames)⟩
        (',' :: (writeItems (next :: items) ++ ']' :: rest)) =
        if enclosing.length + 1 + nestingItems (next :: items) ≤ limit
          then State.read ρ limit ⟨enclosing, State.afterValue enclosing,
            Draft.put (.array ((item :: done).reverse ++ next :: items)) frames⟩ rest
          else .error .nestingTooDeep :=
      (read_step rfl).trans
        (read_writeItems (next :: items) hfree.2 (Or.inr rfl) (by simp) hroom)
    rw [List.reverse_cons, List.append_assoc, List.singleton_append] at hitems
    rw [writeItems, List.append_assoc, List.cons_append,
      read_write item hfree.1 (Or.inr hplace) hopen, nestingItems, ← ite_max, List.length_cons]
    exact if_congr Iff.rfl hitems rfl

/-- The fields of an object that is open, up to its end. -/
theorem read_writeFields : ∀ (fields : List (String × Json)), NumberFreeFields fields →
    ∀ {enclosing : List Container} {place : Place} {done : List (String × Json)}
      {frames : List Frame} {rest : List Char}, place = .firstName ∨ place = .nextName →
    (fields = [] → place = .firstName) → enclosing.length < limit →
    State.read ρ limit ⟨.object :: enclosing, place, .pending (.object done :: frames)⟩
        (writeFields fields ++ '\x7d' :: rest) =
      if enclosing.length + 1 + nestingFields fields ≤ limit
        then State.read ρ limit ⟨enclosing, State.afterValue enclosing,
          Draft.put (.object (done.reverse ++ fields)) frames⟩ rest
        else .error .nestingTooDeep
  | [], _, enclosing, place, done, frames, rest, _, hfirst, hroom => by
    obtain rfl := hfirst rfl
    rw [nestingFields, Nat.add_zero, if_pos (Nat.succ_le_of_lt hroom), List.append_nil]
    exact read_step rfl
  | [(name, value)], hfree, enclosing, place, done, frames, rest, hplace, _, hroom => by
    have hopen : (Container.object :: enclosing).length ≤ limit := hroom
    rw [writeFields, List.append_assoc, List.cons_append, read_writeName name hplace,
      read_write value hfree.1 (Or.inl rfl) hopen, nestingFields, nestingFields,
      Nat.max_zero, List.length_cons, ← List.reverse_cons]
    exact if_congr Iff.rfl (read_step rfl) rfl
  | (name, value) :: next :: fields, hfree, enclosing, place, done, frames, rest, hplace, _,
      hroom => by
    have hopen : (Container.object :: enclosing).length ≤ limit := hroom
    -- the comma, and then the other fields of the object
    have hfields : State.read ρ limit
        ⟨.object :: enclosing, .separator, .pending (.object ((name, value) :: done) :: frames)⟩
        (',' :: (writeFields (next :: fields) ++ '\x7d' :: rest)) =
        if enclosing.length + 1 + nestingFields (next :: fields) ≤ limit
          then State.read ρ limit ⟨enclosing, State.afterValue enclosing,
            Draft.put (.object (((name, value) :: done).reverse ++ next :: fields)) frames⟩ rest
          else .error .nestingTooDeep :=
      (read_step rfl).trans (read_writeFields (next :: fields) hfree.2
        (Or.inr rfl) (by simp) hroom)
    rw [List.reverse_cons, List.append_assoc, List.singleton_append] at hfields
    rw [writeFields, List.append_assoc, List.cons_append, read_writeName name hplace,
      List.append_assoc, List.cons_append, read_write value hfree.1 (Or.inl rfl) hopen,
      nestingFields, ← ite_max, List.length_cons]
    exact if_congr Iff.rfl hfields rfl

end

/-! ## Whole texts -/

/-- The text of a value on its own. Reading gives the value back unless it is nested deeper than
the reader goes, and then that is the fault. -/
theorem parse_render (value : Json) (hfree : NumberFree value) :
    (parse limit (render value) : Except (Fault ρ) (Json × Bool)) =
      if nesting value ≤ limit then .ok (value, true) else .error .nestingTooDeep := by
  have hread : State.read ρ limit { content := .pending [] } (write value ++ []) =
      if 0 + nesting value ≤ limit
        then State.read ρ limit ⟨[], .done true, .complete value⟩ [] else .error .nestingTooDeep :=
    read_write value hfree (Or.inl rfl) (Nat.zero_le limit)
  rw [List.append_nil, Nat.zero_add, State.read] at hread
  rw [parse, readInto, render, String.toList_ofList, hread]
  split
  · rfl
  · rfl

/-- Different values have different texts. -/
theorem render_injective {v w : Json} (hv : NumberFree v) (hw : NumberFree w)
    (h : render v = render w) : v = w := by
  have hparse (u : Json) (hu : NumberFree u) (hfits : nesting u ≤ max (nesting v) (nesting w)) :
      (parse (max (nesting v) (nesting w)) (render u) : Except (Fault Empty) (Json × Bool)) =
        .ok (u, true) := by
    rw [parse_render u hu, if_pos hfits]
  have hsame := (hparse v hv (Nat.le_max_left _ _)).symm.trans
    (h ▸ hparse w hw (Nat.le_max_right _ _))
  simpa using hsame

end KeyRules.Json
