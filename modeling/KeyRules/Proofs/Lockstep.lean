import KeyRules.Proofs.Feeding
import KeyRules.Proofs.JsonText
import KeyRules.Proofs.Reading

/-!
# KeyRules — what a sink makes of a text

When a text spells a value by all rules, reading it for a sink has the same outcome as handing the
value to the sink as a whole. This is how configurations are reasoned about: their texts are judged
while they are read, but what comes of it can be said of the value alone.

Two readers are compared character by character, one that builds the value and one that serves the
sink. The first one determines where the second stands, and the second holds what comes of
replaying to the sink what the first one built, until the sink refuses something. Then the second
reader has failed, and so does every replay from there on.

* `Fits` — the places of a reader that agree with what was built.
* `Sink.heard` — what a sink has heard of a text.
* `Follows` — one reader does what the other one does.
* `follows_step` — one character.
* `readInto_of_parse` — whole texts.
-/

namespace KeyRules.Json

variable {ρ σ : Type} {sink : Sink ρ σ} {start : σ}

/-! ## The places of both readers -/

/-- What an array or object that is open is. -/
def Frame.kind : Frame → Container
  | .array _ => .array
  | .object _ | .field _ _ => .object

/-- What is open where a reader stands. -/
def Expects : Place → List Frame → Prop
  | .value, frames => Ready frames ∧ taken frames = false
  | .word _ _, frames | .numeral _, frames | .string false _, frames => Ready frames
  | .firstItem, frames => ∃ rest, frames = .array [] :: rest ∧ Ready rest
  | .nextItem, frames => ∃ item items rest, frames = .array (item :: items) :: rest ∧ Ready rest
  | .firstName, frames | .nextName, frames | .string true _, frames =>
    ∃ fields rest, frames = .object fields :: rest ∧ Ready rest
  | .colon, frames => ∃ fields name rest, frames = .field fields name :: rest ∧ Ready rest
  | .separator, frames =>
    (∃ item items rest, frames = .array (item :: items) :: rest ∧ Ready rest) ∨
      ∃ fields rest, frames = .object fields :: rest ∧ Ready rest
  | .done _, _ => False

/-- A reader stands where its place and what was built agree. -/
inductive Fits : State Draft → Prop where
  | pending {place : Place} (frames : List Frame) (h : Expects place frames) :
      Fits ⟨frames.map Frame.kind, place, .pending frames⟩
  | complete (clean : Bool) (value : Json) : Fits ⟨[], .done clean, .complete value⟩

/-- What a sink has heard when a value was read as far as here. A value that has begun is refused
where there is no room for it, although nothing is told of it before it is complete. -/
def Sink.heard (sink : Sink ρ σ) (start : σ) (s : State Draft) : Except (Fault ρ) σ :=
  match s.content with
  | .pending frames => sink.replay start frames >>= sink.room (s.place.begun && taken frames)
  | .complete value => sink.feed value start

/-- The places of a strict reader and of another are alike: only the texts of strings may differ,
and only where they are skipped. -/
inductive Alike (manner : Manner) : Place → Place → Prop where
  | plain {place : Place} (h : ∀ isName o, place ≠ .string isName o) : Alike manner place place
  | told (hmanner : manner ≠ .lax) (isName : Bool) (o : OpenString) :
      Alike manner (.string isName o) (.string isName o)
  | skipped (hmanner : manner = .lax) (isName : Bool) {o other : OpenString}
      (h : other.place = o.place.unpaired) : Alike manner (.string isName o) (.string isName other)

/-- Where nothing was begun the two places are the same. -/
theorem alike_of_isFresh {manner : Manner} {place : Place} (h : place.IsFresh) :
    Alike manner place place := by
  by_cases hstring : ∃ isName o, place = .string isName o
  · obtain ⟨isName, o, rfl⟩ := hstring
    by_cases hmanner : manner = .lax
    · -- between two characters the other reader stands between them as well
      have hbetween : o.place = .between := h
      exact .skipped hmanner isName (by rw [hbetween]; rfl)
    · exact .told hmanner isName o
  · exact .plain fun isName o heq => hstring ⟨isName, o, heq⟩

/-- The reader of a sink stands where the reader of a value stands. -/
structure Shows (sink : Sink ρ σ) (s : State Draft) (r : State σ) : Prop where
  enclosing : r.enclosing = s.enclosing
  place : Alike (sink.manner r.content) s.place r.place

/-- The reader of a sink holds what the sink should hold, or fails as the sink should. -/
def Agrees (sink : Sink ρ σ) (heard : Except (Fault ρ) σ) (s : State Draft) :
    Except (Fault ρ) (State σ) → Prop
  | .ok r => heard = .ok r.content ∧ Shows sink s r
  | .error fault => heard = .error fault

/-- Between two states of the reader of a value, the reader of a sink does what is given. -/
structure Follows (sink : Sink ρ σ) (start : σ) (s t : State Draft)
    (act : State σ → Except (Fault ρ) (State σ)) : Prop where
  fits : Fits t
  agrees : ∃ more : σ → Except (Fault ρ) σ, sink.heard start t = sink.heard start s >>= more ∧
    ∀ r, Shows sink s r → Agrees sink (more r.content) t (act r)

variable {s t u : State Draft} {x : Except (Fault ρ) σ} {y : Except (Fault ρ) (State σ)}
  {more : σ → Except (Fault ρ) σ} {act act' : State σ → Except (Fault ρ) (State σ)}

/-- What agrees so far agrees after one more action, if the action does on every state that shows
the same. -/
theorem Agrees.bind (h : Agrees sink x s y)
    (hact : ∀ r, Shows sink s r → Agrees sink (more r.content) t (act r)) :
    Agrees sink (x >>= more) t (y >>= act) := by
  cases y with
  | error fault =>
    obtain rfl : x = .error fault := h
    rfl
  | ok r =>
    obtain ⟨rfl, hshows⟩ := h
    exact hact r hshows

/-- One step after another: if the other reader keeps up with both, it keeps up with the two
together. -/
theorem Follows.trans (h : Follows sink start s t act) (h' : Follows sink start t u act') :
    Follows sink start s u fun r => act r >>= act' := by
  obtain ⟨more, hheard, hagrees⟩ := h.agrees
  obtain ⟨more', hheard', hagrees'⟩ := h'.agrees
  -- the sink is told first what belongs to the first part
  refine ⟨h'.fits, fun content => more content >>= more', ?_, ?_⟩
  · rw [hheard', hheard, bind_assoc]
  · intro r hr
    exact (hagrees r hr).bind hagrees'

/-- The action counts only on states that show what was read. -/
theorem Follows.congr (h : Follows sink start s t act)
    (hact : ∀ r, Shows sink s r → act' r = act r) : Follows sink start s t act' := by
  obtain ⟨more, hheard, hagrees⟩ := h.agrees
  refine ⟨h.fits, more, hheard, fun r hr => ?_⟩
  rw [hact r hr]
  exact hagrees r hr

/-- The sink is told something, and the reader goes to the place where the other one is. -/
theorem follows_of_eq (more : σ → Except (Fault ρ) σ) (hfits : Fits t)
    (hfresh : t.place.IsFresh) (hheard : sink.heard start t = sink.heard start s >>= more)
    (hact : ∀ r, Shows sink s r → act r = more r.content >>= fun content =>
      .ok ⟨t.enclosing, t.place, content⟩) :
    Follows sink start s t act := by
  refine ⟨hfits, more, hheard, fun r hr => ?_⟩
  rw [hact r hr]
  cases more r.content with
  | error fault => rfl
  | ok content => exact ⟨rfl, rfl, alike_of_isFresh hfresh⟩

/-- The sink is told nothing, and the reader goes to the place where the other one is. -/
theorem follows_of_move (hfits : Fits t) (hfresh : t.place.IsFresh)
    (hheard : sink.heard start t = sink.heard start s)
    (hact : ∀ r, Shows sink s r → act r = .ok ⟨t.enclosing, t.place, r.content⟩) :
    Follows sink start s t act :=
  follows_of_eq pure hfits hfresh (by rw [hheard, bind_pure]) hact

/-! ## What the sink is told -/

/-- The value of an array or object that ends here. -/
inductive Frame.Closes : Frame → Json → Prop where
  | array (items : List Json) : Closes (.array items) (.array items.reverse)
  | object (fields : List (String × Json)) : Closes (.object fields) (.object fields.reverse)

variable {place : Place} {rest : List Frame} {limit : Nat} {c : Char} {v : Scalar}
  {fields : List (String × Json)}

/-- A value that was put into its container leaves places that fit. -/
theorem fits_put (hready : Ready frames) (value : Json) :
    Fits ⟨frames.map Frame.kind, State.afterValue (frames.map Frame.kind),
      Draft.put value frames⟩ := by
  -- the innermost array or object says what may follow, and if there is none the text is over
  match frames with
  | [] => exact .complete true value
  | .array items :: frames =>
    exact Fits.pending (.array (value :: items) :: frames)
      (Or.inl ⟨value, items, frames, rfl, ready_array.mp hready⟩)
  | .field fields name :: frames =>
    exact Fits.pending (.object ((name, value) :: fields) :: frames)
      (Or.inr ⟨_, frames, rfl, ready_field.mp hready⟩)
  | .object fields :: frames => exact absurd rfl (hready _ (by simp) fields)

/-- After a value the next one has not begun. -/
theorem heard_put (hready : Ready frames) (value : Json) :
    sink.heard start ⟨frames.map Frame.kind, State.afterValue (frames.map Frame.kind),
        Draft.put value frames⟩ =
      sink.replay start frames >>= sink.room (taken frames) >>= sink.feed value := by
  rw [← told_put hready]
  -- behind a value stands no value that has begun, so there is room
  match frames with
  | [] => rfl
  | .array items :: frames =>
    exact (bind_congr fun content => room_false content).trans (bind_pure _)
  | .field fields name :: frames =>
    exact (bind_congr fun content => room_false content).trans (bind_pure _)
  | .object fields :: frames => exact absurd rfl (hready _ (by simp) fields)

/-- Everywhere but in a string both readers stand at the same place. -/
theorem Shows.place_eq {r : State σ} (h : Shows sink s r)
    (hplain : ∀ isName o, s.place ≠ .string isName o) : r.place = s.place := by
  have hplace := h.place
  generalize s.place = place at hplace hplain
  generalize r.place = place' at hplace
  cases hplace with
  | plain => rfl
  | told _ isName o => exact absurd rfl (hplain isName o)
  | skipped _ isName _ => exact absurd rfl (hplain isName _)

/-- In a string they do so unless it is skipped. A skipped string is followed only as far as its
escapes go, because nobody asks for its text. -/
theorem Shows.string {r : State σ} (h : Shows sink s r) {isName : Bool} {o : OpenString}
    (hs : s.place = .string isName o) :
    (sink.manner r.content ≠ .lax ∧ r.place = .string isName o) ∨
      sink.manner r.content = .lax ∧ ∃ other : OpenString, r.place = .string isName other ∧
        other.place = o.place.unpaired := by
  have hplace := h.place
  rw [hs] at hplace
  -- the place of the other state must be a variable for the case split
  generalize r.place = place' at hplace ⊢
  cases hplace with
  | plain hplain => exact absurd rfl (hplain isName o)
  | told hmanner => exact Or.inl ⟨hmanner, rfl⟩
  | skipped hmanner _ hunpaired => exact Or.inr ⟨hmanner, _, rfl, hunpaired⟩

/-- Where no value has begun, what was built is all the sink has heard. -/
theorem heard_pending {enclosing : List Container} (hbegun : place.begun = false) :
    sink.heard start ⟨enclosing, place, .pending frames⟩ = sink.replay start frames := by
  simp [Sink.heard, hbegun, funext room_false]

/-- A scalar goes to the sink when it is complete. -/
theorem follows_scalar (hready : Ready frames) (hbegun : place.begun = true) :
    Follows sink start ⟨frames.map Frame.kind, place, .pending frames⟩
      ⟨frames.map Frame.kind, State.afterValue (frames.map Frame.kind),
        Draft.put (.scalar v) frames⟩ (·.scalar sink v) := by
  refine follows_of_eq (fun content => (sink.scalar content v).mapError .refused)
    (fits_put hready _) (isFresh_afterValue _) ?_ fun r hr => ?_
  · -- what the sink heard so far, and the scalar
    rw [heard_put hready]
    simp only [Sink.heard, hbegun, Bool.true_and]
    rfl
  · have henclosing : r.enclosing = frames.map Frame.kind := hr.enclosing
    rw [State.scalar, henclosing]
    rfl

/-- The name of a field goes to the sink when its string is closed. -/
theorem follows_name (hready : Ready rest) (text : String) (o : OpenString) :
    Follows sink start
      ⟨.object :: rest.map Frame.kind, .string true o, .pending (.object fields :: rest)⟩
      ⟨.object :: rest.map Frame.kind, .colon, .pending (.field fields text :: rest)⟩
      (·.name sink text) := by
  refine follows_of_eq (fun content => (sink.name content text).mapError .refused)
    (.pending (.field fields text :: rest) ⟨fields, text, rest, rfl, hready⟩)
    trivial ?_ fun r hr => ?_
  · -- what the sink heard so far, and the name
    rw [heard_pending rfl, heard_pending rfl]
    simp [Sink.replay]
  · have henclosing : r.enclosing = .object :: rest.map Frame.kind := hr.enclosing
    rw [State.name, henclosing]
    rfl

/-- Entering a container asks the sink for room first, and for the limit. -/
theorem follows_enter (hready : Ready frames) (kind : Container) (hbegun : place.begun = false)
    (hroom : (frames.map Frame.kind).length < limit) :
    Follows sink start ⟨frames.map Frame.kind, place, .pending frames⟩
      ⟨kind :: frames.map Frame.kind, kind.opening, Draft.enter kind (.pending frames)⟩
      fun r => sink.room (taken frames) r.content >>= fun _ => r.enter limit sink kind := by
  refine follows_of_eq (fun content => sink.room (taken frames) content >>= fun content =>
    (sink.enter content kind).mapError .refused) ?_ ?_ ?_ fun r hr => ?_
  · cases kind with
    | array => exact .pending (.array [] :: frames) ⟨frames, rfl, hready⟩
    | object => exact .pending (.object [] :: frames) ⟨[], frames, rfl, hready⟩
  · cases kind <;> trivial
  · rw [heard_pending hbegun]
    cases kind with
    | array =>
      rw [Draft.enter, heard_pending rfl]
      simp [Sink.replay, Sink.feedItems]
    | object =>
      rw [Draft.enter, heard_pending rfl]
      simp [Sink.replay, Sink.feedFields]
  · have henclosing : r.enclosing = frames.map Frame.kind := hr.enclosing
    -- the limit is not reached, because it was not when the value was built
    have hfits : ¬ (sink.manner r.content = .strict ∧ limit ≤ r.enclosing.length) := by
      rw [henclosing]
      exact fun h => absurd h.2 (Nat.not_le.mpr hroom)
    unfold State.enter Sink.room
    rw [if_neg hfits, henclosing]
    split <;> cases kind <;> rfl

/-- Leaving a container hands its value on to the one around it. -/
theorem follows_leave {frame : Frame} {value : Json} (hready : Ready rest)
    (hcloses : frame.Closes value) (hbegun : place.begun = false) :
    Follows sink start ⟨(frame :: rest).map Frame.kind, place, .pending (frame :: rest)⟩
      ⟨rest.map Frame.kind, State.afterValue (rest.map Frame.kind), Draft.put value rest⟩
      (·.leave sink) := by
  refine follows_of_eq (fun content => (sink.leave content).mapError .refused)
    (fits_put hready _) (isFresh_afterValue _) ?_ fun r hr => ?_
  · -- what the sink heard of the whole value is what it heard of the frame, and the closing
    rw [heard_put hready, heard_pending hbegun]
    cases hcloses with
    | array items => simp [Sink.replay, Sink.feed]
    | object fields => simp [Sink.replay, Sink.feed]
  · have henclosing : r.enclosing = (frame :: rest).map Frame.kind := hr.enclosing
    rw [State.leave, henclosing]
    rfl

/-- Where the text only goes on, nothing is handed over. -/
theorem follows_refl (hfits : Fits s) : Follows sink start s s .ok :=
  ⟨hfits, pure, (bind_pure _).symm, fun _ hr => ⟨rfl, hr⟩⟩

/-! ## Where values begin and end -/

theorem expects_of_begun (hbegun : place.begun = true) (hready : Ready frames) :
    Expects place frames := by
  cases place with
  | word | numeral => exact hready
  | string isName o =>
    cases isName with
    | true => cases hbegun
    | false => exact hready
  | _ => cases hbegun

/-- A value begins, where there is room for it. -/
theorem follows_begin (hready : Ready frames) (hbegun : place.begun = false)
    (h : State.begin limit building ⟨frames.map Frame.kind, place, .pending frames⟩ c =
      (.ok t : Except (Fault ρ) (State Draft))) :
    Follows sink start ⟨frames.map Frame.kind, place, .pending frames⟩ t
      fun r => sink.room (taken frames) r.content >>= fun _ => r.begin limit sink c := by
  rcases begin_cases ρ limit c with ⟨next, hnext, hfresh, hbegin⟩ | ⟨kind, henter⟩ |
    hrefused
  · -- a value without parts: nothing is told but that there must be room
    rw [hbegin] at h
    obtain rfl := Except.ok.inj h
    refine follows_of_eq (sink.room (taken frames)) (.pending _ (expects_of_begun hnext hready))
      hfresh ?_ fun r hr => ?_
    · rw [heard_pending hbegun]
      simp only [Sink.heard, hnext, Bool.true_and]
    · have henclosing : r.enclosing = frames.map Frame.kind := hr.enclosing
      rw [hbegin, henclosing]
      unfold Sink.room
      split <;> rfl
  · -- a bracket, which is only read where it is not too deep
    rw [henter] at h
    rcases Nat.lt_or_ge (frames.map Frame.kind).length limit with hroom | hfull
    · rw [enter_room kind hroom] at h
      obtain rfl := Except.ok.inj h
      simp only [henter]
      cases kind with
      | array => exact follows_enter hready .array hbegun hroom
      | object => exact follows_enter hready .object hbegun hroom
    · rw [enter_full kind hfull] at h
      cases h
  · rw [hrefused] at h
    cases h

/-- A value begins where none stands before it. -/
theorem follows_begin_first (hready : Ready frames) (htaken : taken frames = false)
    (hbegun : place.begun = false)
    (h : State.begin limit building ⟨frames.map Frame.kind, place, .pending frames⟩ c =
      (.ok t : Except (Fault ρ) (State Draft))) :
    Follows sink start ⟨frames.map Frame.kind, place, .pending frames⟩ t (·.begin limit sink c) :=
  (follows_begin hready hbegun h).congr fun r _ => by
    rw [htaken, room_false]
    rfl

/-- The name of a field begins. -/
theorem follows_beginName (hready : Ready rest) (hbegun : place.begun = false)
    (h : State.beginName ⟨.object :: rest.map Frame.kind, place,
        .pending (.object fields :: rest)⟩ c = (.ok t : Except (Fault ρ) (State Draft))) :
    Follows sink start
      ⟨.object :: rest.map Frame.kind, place, .pending (.object fields :: rest)⟩ t
      (·.beginName c) := by
  unfold State.beginName at h
  split at h
  · rename_i hquote
    obtain rfl := Except.ok.inj h
    refine follows_of_move (.pending (.object fields :: rest) ⟨fields, rest, rfl, hready⟩)
      rfl ?_ fun r hr => ?_
    · rw [heard_pending hbegun, heard_pending rfl]
    · rw [State.beginName, if_pos hquote, hr.enclosing]
  · cases h

/-- Behind a value the text goes on with a comma, or the container is left. -/
theorem follows_separate {frame : Frame} {value : Json} (hready : Ready rest)
    (hcloses : frame.Closes value) (hnext : Expects frame.kind.afterComma (frame :: rest))
    (h : State.separate building ⟨(frame :: rest).map Frame.kind, .separator,
      .pending (frame :: rest)⟩ c = (.ok t : Except (Fault ρ) (State Draft))) :
    Follows sink start ⟨(frame :: rest).map Frame.kind, .separator, .pending (frame :: rest)⟩ t
      (·.separate sink c) := by
  obtain ⟨fault, heq⟩ := separate_eq (building : Sink ρ Draft)
    ⟨(frame :: rest).map Frame.kind, .separator, .pending (frame :: rest)⟩ rfl c
  rw [heq] at h
  split at h
  · -- the closing bracket
    rename_i hclose
    obtain rfl : t = ⟨rest.map Frame.kind, State.afterValue (rest.map Frame.kind),
        Draft.put value rest⟩ := by
      cases hcloses <;> exact (Except.ok.inj h).symm
    refine (follows_leave hready hcloses rfl).congr fun r hr => ?_
    obtain ⟨fault, heq⟩ := separate_eq sink r hr.enclosing c
    rw [heq, if_pos hclose]
  rename_i hclose
  split at h
  · -- the comma, of which the sink hears nothing
    rename_i hcomma
    obtain rfl := Except.ok.inj h
    refine follows_of_move (.pending _ hnext) ?_ ?_ fun r hr => ?_
    · cases frame.kind <;> trivial
    · cases hcloses <;> rfl
    · obtain ⟨fault, heq⟩ := separate_eq sink r hr.enclosing c
      rw [heq, if_neg hclose, if_pos hcomma, hr.enclosing]
  · cases h

/-- A character that is no blank, where blanks mean nothing. -/
theorem follows_structural (hplace : Expects place frames) (hbegun : place.begun = false)
    (hplain : ∀ isName o, place ≠ .string isName o)
    (h : State.structural limit building ⟨frames.map Frame.kind, place, .pending frames⟩ c =
      (.ok t : Except (Fault ρ) (State Draft))) :
    Follows sink start ⟨frames.map Frame.kind, place, .pending frames⟩ t
      (·.structural limit sink c) := by
  -- both readers stand at the same place, so every case below is about one place
  have hsame {r : State σ} (hr : Shows sink ⟨frames.map Frame.kind, place, .pending frames⟩ r) :
      r.place = place := hr.place_eq hplain
  cases place with
  | value =>
    refine (follows_begin_first hplace.1 hplace.2 rfl h).congr fun r hr => ?_
    rw [State.structural, hsame hr]
  | firstItem =>
    obtain ⟨rest, rfl, hready⟩ := hplace
    by_cases hclose : c = ']'
    · subst hclose
      obtain rfl := Except.ok.inj h
      refine (follows_leave hready (.array []) rfl).congr fun r hr => ?_
      rw [State.structural, hsame hr, if_pos rfl]
    · -- the first item has room in every array
      refine (follows_begin_first (ready_array.mpr hready) rfl rfl
        ((if_neg hclose).symm.trans h)).congr fun r hr => ?_
      rw [State.structural, hsame hr, if_neg hclose]
  | nextItem =>
    obtain ⟨item, items, rest, rfl, hready⟩ := hplace
    by_cases hclose : c = ']'
    · subst hclose
      cases h
    · -- a sink that has all its items refuses the next one, and it does so before it is told of it
      refine (follows_begin (ready_array.mpr hready) rfl
        ((if_neg hclose).symm.trans h)).congr fun r hr => ?_
      simp only [State.structural, hsame hr, State.beginNext, Sink.room, taken, if_neg hclose]
      cases sink.manner r.content <;> rfl
  | firstName =>
    obtain ⟨fields, rest, rfl, hready⟩ := hplace
    by_cases hclose : c = '\x7d'
    · subst hclose
      obtain rfl := Except.ok.inj h
      refine (follows_leave hready (.object fields) rfl).congr fun r hr => ?_
      rw [State.structural, hsame hr, if_pos rfl]
    · refine (follows_beginName hready rfl ((if_neg hclose).symm.trans h)).congr fun r hr => ?_
      rw [State.structural, hsame hr, if_neg hclose]
  | nextName =>
    obtain ⟨fields, rest, rfl, hready⟩ := hplace
    by_cases hclose : c = '\x7d'
    · subst hclose
      cases h
    · have hname (manner : Manner) : ¬ (c = '\x7d' ∧ manner ≠ .lax) := fun hc => hclose hc.1
      refine (follows_beginName hready rfl ((if_neg (hname .strict)).symm.trans h)).congr
        fun r hr => ?_
      rw [State.structural, hsame hr, if_neg (hname _)]
  | colon =>
    obtain ⟨fields, name, rest, rfl, hready⟩ := hplace
    by_cases hcolon : c = ':'
    · subst hcolon
      obtain rfl := Except.ok.inj h
      refine follows_of_move (.pending (.field fields name :: rest)
        ⟨ready_field.mpr hready, rfl⟩) trivial rfl fun r hr => ?_
      rw [State.structural, hsame hr, if_pos rfl, hr.enclosing]
    · have hrefused := (if_neg hcolon).symm.trans h
      cases hrefused
  | separator =>
    have hsep {r : State σ}
        (hr : Shows sink ⟨frames.map Frame.kind, .separator, .pending frames⟩ r) :
        r.structural limit sink c = r.separate sink c := by rw [State.structural, hsame hr]
    rcases hplace with ⟨item, items, rest, rfl, hready⟩ | ⟨fields, rest, rfl, hready⟩
    · exact (follows_separate hready (.array _) ⟨item, items, rest, rfl, hready⟩ h).congr
        fun r hr => hsep hr
    · exact (follows_separate hready (.object _) ⟨fields, rest, rfl, hready⟩ h).congr
        fun r hr => hsep hr
  | done clean => exact hplace.elim
  | word due v => cases hbegun
  | numeral n => cases hbegun
  | string isName o => exact absurd rfl (hplain isName o)

/-! ## Strings, words and numbers -/

/-- A string is complete at its closing quote. -/
theorem advance_closing (hsink : sink.PassesText) {isName : Bool} {o : OpenString} {r : State σ}
    (hplace : s.place = .string isName o) (hr : Shows sink s r) (hclose : o.closes c = true) :
    r.advance limit sink c =
      if isName then r.name sink o.text else r.scalar sink (.string o.text) := by
  rcases hr.string hplace with ⟨-, hsame⟩ | ⟨hmanner, other, hother, hunpaired⟩
  · rw [advance_string sink hsame, if_pos hclose]
  · have hcloses : other.closes c = true :=
      (closes_unpaired ρ hunpaired (Or.inl hclose)).trans hclose
    rw [advance_string sink hother, if_pos hcloses]
    -- the text may be another one, but the sink does not look at it
    cases isName with
    | true => simp only [if_true, State.name, hsink.name r.content other.text o.text hmanner]
    | false =>
      simp only [Bool.false_eq_true, if_false, State.scalar,
        hsink.scalar r.content other.text o.text hmanner]

/-- A string goes on or is complete. -/
theorem follows_string (hsink : sink.PassesText) {isName : Bool} {o : OpenString}
    (hexpects : Expects (.string isName o) frames)
    (h : State.advance limit building ⟨frames.map Frame.kind, .string isName o, .pending frames⟩ c =
      (.ok t : Except (Fault ρ) (State Draft))) :
    Follows sink start ⟨frames.map Frame.kind, .string isName o, .pending frames⟩ t
      (·.advance limit sink c) := by
  rw [advance_string building rfl] at h
  by_cases hclose : o.closes c = true
  · rw [if_pos hclose] at h
    cases isName with
    | true =>
      obtain ⟨fields, rest, rfl, hready⟩ := hexpects
      obtain rfl := Except.ok.inj h
      exact (follows_name hready o.text o).congr fun r hr => advance_closing hsink rfl hr hclose
    | false =>
      obtain rfl := Except.ok.inj h
      exact (follows_scalar hexpects rfl).congr fun r hr => advance_closing hsink rfl hr hclose
  · rw [if_neg hclose] at h
    obtain ⟨next, hnext, h⟩ := bind_eq_ok.mp h
    obtain rfl := Except.ok.inj h
    have hstep : (o.step true c : Except (Fault ρ) OpenString) = .ok next := hnext
    refine ⟨.pending _ (by cases isName <;> exact hexpects), pure, ?_, fun r hr => ?_⟩
    · rw [bind_pure]
      cases isName <;> rfl
    -- the sink is told nothing, and the two strings stay alike
    rcases hr.string rfl with ⟨hmanner, hsame⟩ | ⟨hmanner, other, hother, hunpaired⟩
    · rw [advance_string sink hsame, if_neg hclose, decide_eq_true hmanner, hstep]
      exact ⟨rfl, hr.enclosing, .told hmanner isName next⟩
    · have hcloses : ¬ other.closes c = true := by
        rw [closes_unpaired ρ hunpaired (Or.inr ⟨next, hstep⟩)]
        exact hclose
      obtain ⟨after, hafter, hplace⟩ := step_unpaired hunpaired hstep
      rw [advance_string sink hother, if_neg hcloses, decide_eq_false (not_not.mpr hmanner), hafter]
      exact ⟨rfl, hr.enclosing, .skipped hmanner isName hplace⟩

/-- The letters of a word are read one by one. -/
theorem follows_word {due : List Char} (hready : Ready frames)
    (h : State.advance limit building ⟨frames.map Frame.kind, .word due v, .pending frames⟩ c =
      (.ok t : Except (Fault ρ) (State Draft))) :
    Follows sink start ⟨frames.map Frame.kind, .word due v, .pending frames⟩ t
      (·.advance limit sink c) := by
  rw [advance_word building rfl] at h
  split at h
  · cases h
  rename_i hletter
  split at h
  · -- the last letter: the word is complete, and the sink hears its value
    rename_i hlast
    obtain rfl := Except.ok.inj h
    refine (follows_scalar hready rfl).congr fun r hr => ?_
    rw [advance_word sink (hr.place_eq (by simp)), if_neg hletter, if_pos hlast]
  · -- letters are still due, and the sink hears nothing
    rename_i hmore
    obtain rfl := Except.ok.inj h
    refine follows_of_move (.pending _ hready) trivial rfl fun r hr => ?_
    rw [advance_word sink (hr.place_eq (by simp)), if_neg hletter, if_neg hmore, hr.enclosing]

/-- The characters of a number are read one by one. -/
theorem follows_numeral {n : Numeral} (hready : Ready frames)
    (h : State.advance limit building ⟨frames.map Frame.kind, .numeral n, .pending frames⟩ c =
      (.ok t : Except (Fault ρ) (State Draft))) :
    Follows sink start ⟨frames.map Frame.kind, .numeral n, .pending frames⟩ t
      (·.advance limit sink c) := by
  rw [advance_numeral building rfl] at h
  obtain ⟨next, hstep, h⟩ := bind_eq_ok.mp h
  obtain rfl := Except.ok.inj h
  refine follows_of_move (.pending _ hready) trivial rfl fun r hr => ?_
  rw [advance_numeral sink (hr.place_eq (by simp)), hstep, hr.enclosing]
  rfl

/-- A character that no number ends at. -/
theorem follows_advance (hsink : sink.PassesText) (hfits : Fits s)
    (h : s.advance limit building c = (.ok t : Except (Fault ρ) (State Draft))) :
    Follows sink start s t (·.advance limit sink c) := by
  by_cases hstring : ∃ isName o, s.place = .string isName o
  · obtain ⟨isName, o, hplace⟩ := hstring
    cases hfits with
    | complete => cases hplace
    | @pending place frames hexpects =>
      obtain rfl : place = .string isName o := hplace
      exact follows_string hsink hexpects h
  have hplain : ∀ isName o, s.place ≠ .string isName o := fun isName o heq =>
    hstring ⟨isName, o, heq⟩
  by_cases hbegun : s.place.begun = true
  · cases hfits with
    | complete => cases hbegun
    | @pending place frames hexpects =>
      cases place with
      | word due v => exact follows_word hexpects h
      | numeral n => exact follows_numeral hexpects h
      | string isName o => exact absurd rfl (hplain isName o)
      | _ => cases hbegun
  -- everywhere else a blank is passed over
  have hbegun : s.place.begun = false := Bool.not_eq_true _ ▸ hbegun
  have hadvance (r : State σ) (hr : Shows sink s r) : r.advance limit sink c =
      if State.isBlank c then .ok r else r.structural limit sink c := by
    refine advance_eq sink ?_ ?_
    · rw [hr.place_eq hplain, hbegun]
    · rwa [hr.place_eq hplain]
  rw [advance_eq building hbegun hplain] at h
  by_cases hblank : State.isBlank c = true
  · rw [if_pos hblank] at h
    obtain rfl := Except.ok.inj h
    exact (follows_refl hfits).congr fun r hr => (hadvance r hr).trans (if_pos hblank)
  · rw [if_neg hblank] at h
    refine (?_ : Follows sink start s t (·.structural limit sink c)).congr fun r hr =>
      (hadvance r hr).trans (if_neg hblank)
    cases hfits with
    | pending frames hexpects => exact follows_structural hexpects hbegun hplain h
    | complete clean value =>
      obtain rfl := Except.ok.inj h
      refine follows_of_move (.complete false value) trivial rfl fun r hr => ?_
      rw [State.structural, hr.place_eq hplain, hr.enclosing]

/-! ## The end of a number -/

/-- A number that is finite goes to every sink. -/
theorem follows_number {n : Numeral} (hready : Ready frames)
    (h : State.number building ⟨frames.map Frame.kind, .numeral n, .pending frames⟩ n =
      (.ok t : Except (Fault ρ) (State Draft))) :
    Follows sink start ⟨frames.map Frame.kind, .numeral n, .pending frames⟩ t
      (·.number sink n) := by
  by_cases hfinite : n.number.isFinite = true
  · have hnumber {τ : Type} (sink : Sink ρ τ) (s : State τ) :
        s.number sink n = s.scalar sink (.number n.number) := by
      unfold State.number
      simp [hfinite]
    rw [hnumber] at h
    obtain rfl := Except.ok.inj h
    exact (follows_scalar hready rfl).congr fun r _ => hnumber sink r
  · -- a number that is not finite is a fault, so there is no next state
    have hinfinite : (!n.number.isFinite) = true := by simpa using hfinite
    rw [State.number, if_pos ⟨by simp [building], hinfinite⟩] at h
    cases h

theorem Shows.not_numeral {r : State σ} (hr : Shows sink s r) (h : ∀ n, s.place ≠ .numeral n) :
    ∀ n, r.place ≠ .numeral n := by
  have hplace := hr.place
  generalize s.place = place at hplace h
  generalize r.place = place' at hplace
  cases hplace with
  | plain => exact h
  | told | skipped => simp

/-- A number ends or goes on, and where there is none nothing happens. -/
theorem follows_numeral_end (hfits : Fits s)
    (hnumeral : ∀ n, s.place = .numeral n →
      (s.number building n = (.ok t : Except (Fault ρ) (State Draft)) ∧
        ∀ r, r.place = .numeral n → act r = r.number sink n) ∨
      t = s ∧ ∀ r, r.place = .numeral n → act r = .ok r)
    (hother : (∀ n, s.place ≠ .numeral n) →
      t = s ∧ ∀ r, (∀ n, r.place ≠ .numeral n) → act r = .ok r) :
    Follows sink start s t act := by
  by_cases hplace : ∃ n, s.place = .numeral n
  · obtain ⟨n, hn⟩ := hplace
    have hsame {r : State σ} (hr : Shows sink s r) : r.place = .numeral n :=
      (hr.place_eq (by simp [hn])).trans hn
    -- a number is handed over, or goes on; anything else is passed by
    rcases hnumeral n hn with ⟨hnumber, hact⟩ | ⟨rfl, hact⟩
    · cases hfits with
      | complete => cases hn
      | @pending place frames hexpects =>
        obtain rfl : place = .numeral n := hn
        exact (follows_number hexpects hnumber).congr fun r hr => hact r (hsame hr)
    · exact (follows_refl hfits).congr fun r hr => hact r (hsame hr)
  · have hno : ∀ n, s.place ≠ .numeral n := fun n hn => hplace ⟨n, hn⟩
    obtain ⟨rfl, hact⟩ := hother hno
    exact (follows_refl hfits).congr fun r hr => hact r (hr.not_numeral hno)

/-- A character that ends a number makes the number known before it is read itself. -/
theorem follows_settle (hfits : Fits s)
    (h : s.settle building c = (.ok t : Except (Fault ρ) (State Draft))) :
    Follows sink start s t (·.settle sink c) := by
  refine follows_numeral_end hfits (fun n hn => ?_) fun hno => ?_
  · rw [settle_numeral building hn] at h
    split at h
    · rename_i hends
      exact Or.inl ⟨h, fun r hr => (settle_numeral sink hr).trans (if_pos hends)⟩
    · rename_i hends
      exact Or.inr ⟨(Except.ok.inj h).symm, fun r hr =>
        (settle_numeral sink hr).trans (if_neg hends)⟩
  · rw [settle_other building hno] at h
    exact ⟨(Except.ok.inj h).symm, fun r hr => settle_other sink hr⟩

/-- The end of the text ends a number too. -/
theorem follows_settleEnd (hfits : Fits s)
    (h : s.settleEnd building = (.ok t : Except (Fault ρ) (State Draft))) :
    Follows sink start s t (·.settleEnd sink) := by
  refine follows_numeral_end hfits (fun n hn => ?_) fun hno => ?_
  · rw [State.settleEnd, hn] at h
    by_cases hcomplete : n.isComplete = true
    · refine Or.inl ⟨(if_pos hcomplete).symm.trans h, fun r hr => ?_⟩
      rw [State.settleEnd, hr]
      exact if_pos hcomplete
    · -- a numeral that is not complete is refused
      have hrefused := (if_neg hcomplete).symm.trans h
      cases hrefused
  · rw [settleEnd_other building hno] at h
    exact ⟨(Except.ok.inj h).symm, fun r hr => settleEnd_other sink hr⟩

/-- Whatever a character does to the value that is built, it does to what a sink has heard. -/
theorem follows_step (hsink : sink.PassesText) (hfits : Fits s)
    (h : s.step limit building c = (.ok t : Except (Fault ρ) (State Draft))) :
    Follows sink start s t (·.step limit sink c) := by
  obtain ⟨u, hsettle, hadvance⟩ := bind_eq_ok.mp h
  have hfirst : Follows sink start s u (·.settle sink c) := follows_settle hfits hsettle
  exact hfirst.trans (follows_advance hsink hfirst.fits hadvance)

/-! ## Whole texts -/

/-- A followed step is one more action of the sink. -/
theorem Follows.agrees_bind (h : Follows sink start s t act)
    (hagrees : Agrees sink (sink.heard start s) s y) :
    Agrees sink (sink.heard start t) t (y >>= act) := by
  obtain ⟨more, hheard, hact⟩ := h.agrees
  rw [hheard]
  exact hagrees.bind hact

/-- What a run of characters does to the value that is built, it does to what a sink has heard. -/
theorem agrees_run (hsink : sink.PassesText) (cs : List Char) (hfits : Fits s)
    (h : cs.foldlM (State.step limit building) s = (.ok t : Except (Fault ρ) (State Draft)))
    (hagrees : Agrees sink (sink.heard start s) s y) :
    Fits t ∧ Agrees sink (sink.heard start t) t (y >>= cs.foldlM (State.step limit sink)) := by
  induction cs generalizing s y with
  | nil =>
    obtain rfl := Except.ok.inj h
    exact ⟨hfits, by simpa using hagrees⟩
  | cons c cs ih =>
    rw [List.foldlM_cons] at h
    obtain ⟨u, hstep, hrest⟩ := bind_eq_ok.mp h
    -- one character is a lockstep, and the rest goes on from there
    have hfollows : Follows sink start s u (·.step limit sink c) := follows_step hsink hfits hstep
    have htail := ih hfollows.fits hrest (hfollows.agrees_bind hagrees)
    simpa only [List.foldlM_cons, bind_assoc] using htail

/-- At the end of a text a sink holds what it has heard of the value. -/
theorem stop_eq (hfits : Fits s) {draft : Draft} {clean : Bool}
    (h : s.stop building = (.ok (draft, clean) : Except (Fault ρ) (Draft × Bool)))
    (hagrees : Agrees sink (sink.heard start s) s y) :
    ∃ value, draft = .complete value ∧ y >>= (·.stop sink) =
      sink.feed value start >>= fun content => pure (content, clean) := by
  obtain ⟨u, hend, h⟩ := bind_eq_ok.mp h
  have hfollows : Follows sink start s u (·.settleEnd sink) := follows_settleEnd hfits hend
  have hheard := hfollows.agrees_bind hagrees
  cases hfollows.fits with
  | @pending place frames hplace =>
    cases place with
    | done => exact hplace.elim
    | _ => cases h
  | complete clean' value =>
    obtain ⟨rfl, rfl⟩ := Prod.mk.inj (Except.ok.inj h)
    refine ⟨value, rfl, ?_⟩
    -- the sink may have refused something, at the latest the number that ends here
    cases y with
    | error fault =>
      have hfed : sink.feed value start = .error fault := hheard
      rw [hfed]
      rfl
    | ok r =>
      have hheard : Agrees sink (sink.feed value start) ⟨[], .done clean', .complete value⟩
          (r.settleEnd sink) := hheard
      show r.stop sink = _
      unfold State.stop
      cases hread : r.settleEnd sink with
      | error fault =>
        rw [hread] at hheard
        have hfed : sink.feed value start = .error fault := hheard
        rw [hfed]
        rfl
      | ok r' =>
        rw [hread] at hheard
        obtain ⟨hfed, hshows⟩ := hheard
        have hdone : r'.place = .done clean' := hshows.place_eq (by simp)
        obtain ⟨enclosing, place, content⟩ := r'
        obtain rfl : place = .done clean' := hdone
        rw [hfed]
        rfl

/-- When a text spells a value by all rules, reading it for a sink is handing the value to the sink:
the sink ends up the same or refuses the same. -/
theorem readInto_of_parse (hsink : sink.PassesText) {text : String} {value : Json} {clean : Bool}
    (h : parse limit text = (.ok (value, clean) : Except (Fault ρ) (Json × Bool))) :
    readInto limit sink start text =
      sink.feed value start >>= fun content => pure (content, clean) := by
  have hstart : Fits { content := .pending [] } := .pending [] ⟨ready_nil, rfl⟩
  obtain ⟨⟨draft, clean'⟩, hread, h⟩ := bind_eq_ok.mp h
  obtain ⟨s, hrun, hstop⟩ := bind_eq_ok.mp hread
  -- before the first character nothing was built and nothing was told
  have hfirst : Agrees sink (sink.heard start { content := .pending [] }) { content := .pending [] }
      (.ok { content := start }) := ⟨rfl, rfl, alike_of_isFresh trivial⟩
  obtain ⟨hfits, hagrees⟩ := agrees_run hsink text.toList hstart hrun hfirst
  obtain ⟨value', rfl, heq⟩ := stop_eq hfits hstop hagrees
  obtain ⟨rfl, rfl⟩ := Prod.mk.inj (Except.ok.inj h)
  exact heq

end KeyRules.Json
