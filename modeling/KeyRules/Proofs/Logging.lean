import KeyRules.Proofs.Balanced
import KeyRules.Proofs.Caching
import KeyRules.Proofs.RuleSets
import Mathlib.Data.List.DropRight

/-!
# KeyRules — the log tells the cache

Three messages tell of the cache: that it had an expression, that an expression was compiled into
it, and that it had no room. Whoever reads them, together with the points at which the cache was
emptied, knows without a look at the cache how many expressions it holds and which calls it will
answer.

* `cacheMessages` — the messages about the cache among some events.
* `Entry`, `Session.log`, `sinceCleared` — a log divided into calls, and its last part.
* `Noted`, `Leads` — what a call says and does, and how the entries of a log change the cache.
* `Engine.AsksOnly` — work that is nothing but calls, one after the other.
* `Logged`, `Logged.leads` — the invariant: the cache as the log describes it.
* `log_tells_cache` — what the log of any commands says about the cache.
-/

namespace KeyRules

open Engine (Fetched Works ofCache)

/-! ## Messages -/

/-- Says that the cache had the expression. -/
abbrev hitMessage : String := "definition cache hit"

/-- Says that an expression was compiled for the cache. -/
abbrev compiledMessage : String := "compiled expression into cache"

/-- Says that the cache had no room for it. -/
abbrev fullMessage : String := "definition cache full, not caching"

/-- The messages about the cache, in order. -/
def cacheMessages (events : List Event) : List String :=
  (events.map Event.message).filter (· ∈ [hitMessage, compiledMessage, fullMessage])

/-- Whether an expression was compiled into the cache, and was not turned away afterwards. -/
def Kept (events : List Event) : Prop :=
  compiledMessage ∈ cacheMessages events ∧
    ¬ [compiledMessage, fullMessage].Sublist (cacheMessages events)

@[simp] theorem cacheMessages_nil : cacheMessages [] = [] := rfl

/-- Messages follow one another as the events do. -/
@[simp] theorem cacheMessages_append (events reported : List Event) :
    cacheMessages (events ++ reported) = cacheMessages events ++ cacheMessages reported := by
  rw [cacheMessages, List.map_append, List.filter_append]
  rfl

/-- The events that tell of the cache are those with these messages. -/
theorem message_mem_iff (event : Event) :
    event.message ∈ [hitMessage, compiledMessage, fullMessage] ↔ ofCache event = true := by
  cases event <;> simp only [Event.message, ofCache] <;> decide

theorem cacheMessages_cons_of_not {event : Event} (events : List Event)
    (h : ofCache event = false) : cacheMessages (event :: events) = cacheMessages events := by
  have hother : event.message ∉ [hitMessage, compiledMessage, fullMessage] := by
    rw [message_mem_iff, h]
    exact Bool.false_ne_true
  rw [cacheMessages, List.map_cons, List.filter_cons_of_neg (by simpa using hother)]
  rfl

/-! ## Logs -/

/-- A part of a log. -/
inductive Entry where
  /-- The cache was emptied. -/
  | cleared
  /-- An expression was taken through the cache, and these events were reported on the way. -/
  | call (text : String) (events : List Event)
  /-- Something else was done. -/
  | other (events : List Event)

/-- The events of an entry. -/
def Entry.events : Entry → List Event
  | .cleared => []
  | .call _ events | .other events => events

/-- Whether the cache was emptied. -/
def Entry.isCleared : Entry → Bool
  | .cleared => true
  | _ => false

/-- What was logged since the cache was emptied. -/
def sinceCleared (log : List Entry) : List Entry :=
  log.rtakeWhile fun entry => !entry.isCleared

/-- The engine after some expressions were asked for, one after the other. -/
def Engine.fetches (engine : Engine) (texts : List String) : Engine :=
  texts.foldl (fun engine text => after (fetch text) engine) engine

/-- What asking for some expressions, one after the other, adds to the log. -/
def Engine.calls (engine : Engine) : List String → List Entry
  | [] => []
  | text :: texts =>
    .call text ((fetch text).run engine).events :: (after (fetch text) engine).calls texts

/-- What a command adds to the log. -/
def Session.entries (s : Session) (command : Command) : List Entry :=
  match command with
  | .clear => [.cleared]
  | .cached _ expression | .fetch _ expression | .check expression _ =>
    [.call expression (s.step command).events]
  | .fill _ _ => s.engine.calls command.texts
  | _ => [.other (s.step command).events]

/-- The log of some commands. -/
def Session.log (s : Session) : List Command → List Entry
  | [] => []
  | command :: commands => s.entries command ++ (s.step command).value.2.log commands

/-- Emptying the cache starts the log of the cache again. -/
theorem sinceCleared_concat_cleared (log : List Entry) : sinceCleared (log ++ [.cleared]) = [] :=
  List.rtakeWhile_concat_neg _ _ _ (by simp [Entry.isCleared])

/-- Any other entry is added to the log since then. -/
theorem sinceCleared_concat {entry : Entry} (log : List Entry) (h : entry.isCleared = false) :
    sinceCleared (log ++ [entry]) = sinceCleared log ++ [entry] :=
  List.rtakeWhile_concat_pos _ _ _ (by simp [h])

/-! ## Calls -/

/-- What is kept. -/
abbrev Cache := Std.HashMap String Tree

/-- What a call does to the cache, and what it says about it. -/
inductive Noted (cache : Cache) (text : String) : Cache → List String → Prop where
  | hit (hheld : text ∈ cache) : Noted cache text cache [hitMessage]
  | failed (hnew : text ∉ cache) (hfails : compiles text = false) : Noted cache text cache []
  | refused (hnew : text ∉ cache) (hcompiles : compiles text = true) :
      Noted cache text cache [compiledMessage, fullMessage]
  | kept (tree : Tree) (hnew : text ∉ cache) (hcompiles : compiles text = true) :
      Noted cache text (cache.insert text tree) [compiledMessage]

variable {engine next : Engine} {text : String} {answer : Except Error Tree} {events : List Event}

/-- The four ways to answer an expression are the four kinds of calls. -/
theorem noted_of_fetched (h : Fetched engine text answer next events) :
    Noted engine.cache text next.cache (cacheMessages events) := by
  cases h with
  | hit hcached => exact .hit (Std.HashMap.mem_iff_isSome_getElem?.mpr (by simp [hcached]))
  | failed hnew hparse =>
    exact .failed (Engine.not_mem_of_getElem? hnew) (compiles_of_error hparse)
  | refused hnew hparse _ =>
    exact .refused (Engine.not_mem_of_getElem? hnew) (compiles_of_ok hparse)
  | kept hnew hparse _ =>
    exact .kept _ (Engine.not_mem_of_getElem? hnew) (compiles_of_ok hparse)

/-- Work that asks for nothing does not speak of the cache. -/
theorem silent_of_works (h : Works engine [] events next) : cacheMessages events = [] := by
  generalize htexts : [] = texts at h
  induction h with
  | done => rfl
  | issue _ ih => exact ih htexts
  | emit hother _ ih => rw [cacheMessages_cons_of_not _ hother, ih htexts]
  | ask => cases htexts

/-- Work that asks for one expression is a call, whatever else it does. -/
theorem noted_of_works (h : Works engine [text] events next) :
    Noted engine.cache text next.cache (cacheMessages events) := by
  generalize htexts : [text] = texts at h
  induction h with
  | done => cases htexts
  | issue _ ih => exact ih htexts
  | emit hother _ ih =>
    rw [cacheMessages_cons_of_not _ hother]
    exact ih htexts
  -- the one text is asked for here, so what follows asks for none
  | ask hfetched hrest _ =>
    obtain ⟨rfl, rfl⟩ := List.cons.inj htexts
    rw [cacheMessages_append, silent_of_works hrest, List.append_nil, hrest.cache_eq (by simp)]
    exact noted_of_fetched hfetched

variable {cache mid last : Cache} {log recent : List Entry}

/-- A call says that the cache had the expression exactly if it had. -/
theorem Noted.hit_iff {messages : List String} (h : Noted cache text last messages) :
    hitMessage ∈ messages ↔ text ∈ cache := by
  cases h with
  | hit hheld => exact iff_of_true (by decide) hheld
  | failed hnew _ | refused hnew _ | kept _ hnew _ => exact iff_of_false (by decide) hnew

/-- A call whose expression does not compile says nothing, if the cache has none of that kind. -/
theorem Noted.silent {messages : List String} (h : Noted cache text last messages)
    (hsound : ∀ t ∈ cache, compiles t = true) (hfails : compiles text = false) : messages = [] := by
  cases h with
  | failed => rfl
  | hit hheld => simp [hsound text hheld] at hfails
  | refused _ hcompiles | kept _ _ hcompiles => simp [hcompiles] at hfails

/-! ## What a log does -/

/-- How the entries of a log take the cache from one state to another. -/
inductive Leads : Cache → List Entry → Cache → Prop where
  | done (cache : Cache) : Leads cache [] cache
  | cleared {cache last : Cache} {log : List Entry} (h : Leads {} log last) :
      Leads cache (.cleared :: log) last
  | call {cache mid last : Cache} {text : String} {events : List Event} {log : List Entry}
      (hnoted : Noted cache text mid (cacheMessages events)) (h : Leads mid log last) :
      Leads cache (.call text events :: log) last
  | other {cache last : Cache} {events : List Event} {log : List Entry}
      (hsilent : cacheMessages events = []) (h : Leads cache log last) :
      Leads cache (.other events :: log) last

/-- Two parts of a log lead where the second one does, so the log of a run is put together from
the entries of its commands. -/
theorem Leads.trans (h : Leads cache log mid) (h' : Leads mid recent last) :
    Leads cache (log ++ recent) last := by
  induction h with
  | done => exact h'
  | cleared _ ih => exact .cleared (ih h')
  | call hnoted _ ih => exact .call hnoted (ih h')
  | other hsilent _ ih => exact .other hsilent (ih h')

/-- A log can be read in two parts. At a call in the middle this gives the cache that the call
finds. -/
theorem Leads.split (h : Leads cache (log ++ recent) last) :
    ∃ mid, Leads cache log mid ∧ Leads mid recent last := by
  induction log generalizing cache with
  | nil => exact ⟨cache, .done cache, h⟩
  | cons entry log ih =>
    cases h with
    | cleared h =>
      obtain ⟨mid, hlog, hrecent⟩ := ih h
      exact ⟨mid, .cleared hlog, hrecent⟩
    | call hnoted h =>
      obtain ⟨mid, hlog, hrecent⟩ := ih h
      exact ⟨mid, .call hnoted hlog, hrecent⟩
    | other hsilent h =>
      obtain ⟨mid, hlog, hrecent⟩ := ih h
      exact ⟨mid, .other hsilent hlog, hrecent⟩

/-- The calls of some work lead to the cache that the work leaves behind. -/
theorem leads_calls (engine : Engine) (texts : List String) :
    Leads engine.cache (engine.calls texts) (engine.fetches texts).cache := by
  induction texts generalizing engine with
  | nil => exact .done _
  | cons text texts ih => exact .call (noted_of_fetched (Engine.fetched_fetch engine text)) (ih _)

/-! ## Commands -/

namespace Engine

/-- The calls for more expressions are made on the cache that the first ones left. -/
theorem calls_append (engine : Engine) (ts us : List String) :
    engine.calls (ts ++ us) = engine.calls ts ++ (engine.fetches ts).calls us := by
  induction ts generalizing engine with
  | nil => rfl
  | cons text ts ih => exact congrArg _ (ih _)

/-- Some work asks for the given expressions and does nothing else. -/
def AsksOnly {α : Type} (w : Work α) (texts : List String) : Prop :=
  ∀ engine, (w.run engine).events = (engine.calls texts).flatMap Entry.events ∧
    after w engine = engine.fetches texts

variable {α β : Type} {w : Work α} {f : α → Work β} {ts us : List String}

theorem asksOnly_pure (value : α) : AsksOnly (pure value) [] := fun _ => ⟨rfl, rfl⟩

theorem asksOnly_fetch (text : String) : AsksOnly (fetch text) [text] :=
  fun _ => ⟨(List.append_nil _).symm, rfl⟩

/-- Work in two parts asks for the expressions of both and for nothing else. -/
theorem AsksOnly.bind (h : AsksOnly w ts) (hf : ∀ value, AsksOnly (f value) us) :
    AsksOnly (w >>= f) (ts ++ us) := by
  intro engine
  obtain ⟨hevents, hafter⟩ := h engine
  obtain ⟨hevents', hafter'⟩ := hf (w.run engine).value.1 (after w engine)
  -- the second work starts from the engine that the first one leaves
  rw [hafter] at hevents' hafter'
  constructor
  · rw [calls_append, List.flatMap_append, ← hevents, ← hevents', ← hafter]
    rfl
  · rw [fetches, List.foldl_append, ← fetches, ← fetches, ← hafter', ← hafter]
    rfl

end Engine

namespace Session

variable (s : Session) (command : Command) (commands : List Command)

/-- Filling the cache asks for each numbered expression once, in order. -/
theorem asksOnly_fill (stem : String) (count : Nat) :
    Engine.AsksOnly (fill stem count) (Command.texts (.fill stem count)) := by
  rw [Command.texts, List.map_eq_flatMap]
  refine Engine.foldlM_of_bind Engine.asksOnly_pure Engine.AsksOnly.bind (fun successes i => ?_) _ _
  refine (Engine.asksOnly_fetch (stem ++ toString i)).bind fun result => ?_
  split <;> exact Engine.asksOnly_pure _

/-- The entries of a command hold the events of the command, and no others. -/
theorem events_entries : (s.entries command).flatMap Entry.events = (s.step command).events := by
  cases command with
  | clear => rfl
  | fill stem count =>
    have hstep : (s.step (.fill stem count)).events = ((fill stem count).run s.engine).events := by
      simp [step, work, Traced.events_bind, Traced.pure_def]
    rw [hstep, (asksOnly_fill stem count s.engine).1]
    rfl
  | _ => simp [entries, Entry.events]

/-- The log shows the events of a run, in order. -/
theorem events_log : (s.log commands).flatMap Entry.events = (s.run commands).events := by
  induction commands generalizing s with
  | nil => rfl
  | cons command commands ih =>
    rw [log, List.flatMap_append, events_entries, ih, events_run_cons]

/-- What a command adds to the log is what it does to the cache. -/
theorem leads_entries :
    Leads s.engine.cache (s.entries command) (s.step command).value.2.engine.cache := by
  -- A call is work that asks for one expression, and what is neither a call nor a clearing asks
  -- for none.
  have hcall (h : command ≠ .clear) (text : String) (htexts : command.texts = [text]) :
      Leads s.engine.cache [.call text (s.step command).events]
        (s.step command).value.2.engine.cache := by
    have hworks := works_step s h
    rw [htexts] at hworks
    exact .call (noted_of_works hworks) (.done _)
  have hother (h : command ≠ .clear) (htexts : command.texts = []) :
      Leads s.engine.cache [.other (s.step command).events]
        (s.step command).value.2.engine.cache := by
    have hworks := works_step s h
    rw [htexts] at hworks
    rw [hworks.cache_eq (by simp)]
    exact .other (silent_of_works hworks) (.done _)
  cases command with
  | clear => exact .cleared (.done _)
  | cached _ expression | fetch _ expression | check expression _ =>
    exact hcall (by simp) expression rfl
  | fill stem count =>
    have hleads := leads_calls s.engine (Command.texts (.fill stem count))
    rw [← (asksOnly_fill stem count s.engine).2] at hleads
    exact hleads
  | _ => exact hother (by simp) rfl

/-- The log of commands leads to the cache that they leave behind. -/
theorem leads_log : Leads s.engine.cache (s.log commands) (s.after commands).engine.cache := by
  induction commands generalizing s with
  | nil => exact .done _
  | cons command commands ih => exact (leads_entries s command).trans (ih _)

end Session

/-! ## What the log says -/

/-- The cache is as the log since it was emptied describes it. -/
structure Logged (cache : Cache) (recent : List Entry) : Prop where
  size_eq : cache.size + (cacheMessages (recent.flatMap Entry.events)).count fullMessage =
    (cacheMessages (recent.flatMap Entry.events)).count compiledMessage
  mem_iff : ∀ text, text ∈ cache ↔ ∃ events, .call text events ∈ recent ∧ Kept events
  sound : ∀ text ∈ cache, compiles text = true

theorem logged_empty : Logged {} [] where
  size_eq := by simp
  mem_iff text := by simp
  sound text htext := by simp at htext

/-- A silent entry keeps all that was logged: it adds no message to the count, and it is no call. -/
theorem Logged.other (h : Logged cache recent) (hsilent : cacheMessages events = []) :
    Logged cache (recent ++ [.other events]) where
  size_eq := by simpa [Entry.events, hsilent] using h.size_eq
  mem_iff text := by simpa using h.mem_iff text
  sound := h.sound

/-- A call that keeps nothing. -/
theorem Logged.call_old (h : Logged cache recent) (hkept : ¬ Kept events)
    (hcount : (cacheMessages events).count fullMessage =
      (cacheMessages events).count compiledMessage) :
    Logged cache (recent ++ [.call text events]) where
  size_eq := by
    have hsize := h.size_eq
    simp only [List.flatMap_append, cacheMessages_append, List.count_append, List.flatMap_singleton,
      Entry.events]
    omega
  mem_iff t := by
    rw [h.mem_iff]
    refine exists_congr fun events' => and_congr_left fun hkept' => ?_
    -- the call keeps nothing, so the entries that keep the text are the old ones
    have hne : events' ≠ events := fun heq => hkept (heq ▸ hkept')
    simp [hne]
  sound := h.sound

/-- A call that keeps its expression. -/
theorem Logged.call_new (h : Logged cache recent) (tree : Tree) (hnew : text ∉ cache)
    (hcompiles : compiles text = true) (hevents : cacheMessages events = [compiledMessage]) :
    Logged (cache.insert text tree) (recent ++ [.call text events]) where
  size_eq := by
    -- one entry more in the cache, and one message more that an expression was compiled
    have hsize := h.size_eq
    have hcompiled : [compiledMessage].count compiledMessage = 1 := by decide
    have hfull : [compiledMessage].count fullMessage = 0 := by decide
    simp only [List.flatMap_append, cacheMessages_append, List.count_append, List.flatMap_singleton,
      Entry.events, hevents, hcompiled, hfull, Std.HashMap.size_insert, if_neg hnew]
    omega
  mem_iff t := by
    have hkept : Kept events := by
      rw [Kept, hevents]
      decide
    rw [Std.HashMap.mem_insert, beq_iff_eq, h.mem_iff]
    constructor
    · rintro (rfl | ⟨events', hmem, hkept'⟩)
      · exact ⟨events, by simp, hkept⟩
      · exact ⟨events', by simp [hmem], hkept'⟩
    · rintro ⟨events', hmem, hkept'⟩
      -- the entry is an earlier one, or the call that is added
      rcases List.mem_append.mp hmem with hmem | hmem
      · exact .inr ⟨events', hmem, hkept'⟩
      · rw [List.mem_singleton, Entry.call.injEq] at hmem
        exact .inl hmem.1.symm
  sound t ht := by
    rcases Std.HashMap.mem_insert.mp ht with heq | ht
    · rwa [← beq_iff_eq.mp heq]
    · exact h.sound t ht

/-- One call more. Whether its expression is kept can be told from the messages of the call alone.
-/
theorem Logged.call (h : Logged cache recent)
    (hnoted : Noted cache text last (cacheMessages events)) :
    Logged last (recent ++ [.call text events]) := by
  generalize hmessages : cacheMessages events = messages at hnoted
  -- three of the four cases keep nothing
  cases hnoted with
  | hit _ | failed _ _ | refused _ _ =>
    refine h.call_old ?_ ?_
    · rw [Kept, hmessages]
      decide
    · rw [hmessages]
      decide
  | kept tree hnew hcompiles => exact h.call_new tree hnew hcompiles hmessages

/-- Whatever was logged before, a log keeps describing the cache. -/
theorem Logged.leads {before : List Entry} (h : Logged cache (sinceCleared before))
    (hleads : Leads cache log last) : Logged last (sinceCleared (before ++ log)) := by
  induction hleads generalizing before with
  | done => rwa [List.append_nil]
  -- emptying the cache starts over; any other entry is added to what was logged
  | cleared _ ih =>
    rw [List.append_cons]
    refine ih ?_
    rw [sinceCleared_concat_cleared]
    exact logged_empty
  | call hnoted _ ih =>
    rw [List.append_cons]
    refine ih ?_
    rw [sinceCleared_concat _ rfl]
    exact h.call hnoted
  | other hsilent _ ih =>
    rw [List.append_cons]
    refine ih ?_
    rw [sinceCleared_concat _ rfl]
    exact h.other hsilent

/-- What is in the cache was logged since it was emptied. -/
theorem logged_of_leads (h : Leads {} log last) : Logged last (sinceCleared log) := by
  have hempty : Logged {} (sinceCleared []) := logged_empty
  exact hempty.leads h

/-- At each call of a log that starts with an empty cache, the cache is as the log before it
describes it. -/
theorem noted_of_leads (h : Leads {} (recent ++ .call text events :: log) last) :
    ∃ cache next, Logged cache (sinceCleared recent) ∧
      Noted cache text next (cacheMessages events) := by
  obtain ⟨cache, hbefore, hafter⟩ := h.split
  cases hafter with
  | call hnoted _ => exact ⟨cache, _, logged_of_leads hbefore, hnoted⟩

/-- An entry that is no call says nothing about the cache. -/
theorem silent_of_leads (h : Leads cache log last) (hmem : .other events ∈ log) :
    cacheMessages events = [] := by
  obtain ⟨before, after, rfl⟩ := List.append_of_mem hmem
  obtain ⟨_, _, hafter⟩ := h.split
  cases hafter with
  | other hsilent _ => exact hsilent

/-- What can be told from the log of a run that begins with an empty cache. The number of
expressions that the cache holds is the number of those that were compiled into it since it was
emptied, less those that it had no room for. A call finds its expression in the cache exactly if
since then a call for it has kept it. A call whose expression does not compile says nothing of the
cache, and neither does anything that is not a call. -/
theorem log_tells_cache (commands : List Command) :
    let log := Session.log {} commands
    let recent := cacheMessages ((sinceCleared log).flatMap Entry.events)
    log.flatMap Entry.events = (Session.run {} commands).events ∧
    (Session.after {} commands).engine.cacheSize + recent.count fullMessage =
      recent.count compiledMessage ∧
    (∀ before text events later, log = before ++ .call text events :: later →
      (hitMessage ∈ cacheMessages events ↔
        ∃ events', .call text events' ∈ sinceCleared before ∧ Kept events')) ∧
    (∀ text events e, .call text events ∈ log → Condition.parse text = .error e →
      cacheMessages events = []) ∧
    (∀ events, .other events ∈ log → cacheMessages events = []) ∧
    ∀ {γ : Type} [HasKeys γ] (candidate : γ),
      (∀ set : RuleSet, (set.matching candidate).events = []) ∧
      (∀ rule : Rule, cacheMessages (rule.test candidate).events = []) ∧
      ∀ engine text, ((Engine.check text candidate).run engine).events =
        ((Engine.fetch text).run engine).events := by
  intro log recent
  have hleads : Leads {} log (Session.after {} commands).engine.cache :=
    Session.leads_log {} commands
  refine ⟨Session.events_log {} commands, ?_, ?_, ?_, fun events => silent_of_leads hleads, ?_⟩
  · exact (logged_of_leads hleads).size_eq
  · -- at the call the log so far says what the cache holds
    intro before text events later hlog
    obtain ⟨cache, next, hlogged, hnoted⟩ := noted_of_leads (hlog ▸ hleads)
    rw [hnoted.hit_iff, hlogged.mem_iff]
  · intro text events e hmem hparse
    obtain ⟨before, later, hlog⟩ := List.append_of_mem hmem
    obtain ⟨cache, next, hlogged, hnoted⟩ := noted_of_leads (hlog ▸ hleads)
    exact hnoted.silent hlogged.sound (compiles_of_error hparse)
  · intro γ _ candidate
    refine ⟨fun set => ?_, fun rule => ?_, fun engine text => ?_⟩
    · rw [RuleSet.matching_eq]
      rfl
    · -- only a failed rule reports its test, and not about the cache
      unfold Rule.test
      split <;> rfl
    · exact List.append_nil _

open Expression in
/-- Of two calls for one expression the second finds it, one that fails says nothing, and after the
cache was emptied the expression is not found. -/
theorem log_tells_cache_calls :
    let commands : List Command := [.fetch "t" "a", .check "a" (.scalar .null), .build "q" "a",
      .fetch "u" "a b", .clear, .cached "r" "a"]
    ∃ first second build third fourth,
      Session.log {} commands = [.call "a" first, .call "a" second, .other build, .call "a b" third,
        .cleared, .call "a" fourth] ∧
      Kept first ∧ hitMessage ∈ cacheMessages second ∧ cacheMessages build = [] ∧
      cacheMessages third = [] ∧ hitMessage ∉ cacheMessages fourth ∧
      (Session.after {} commands).engine.cacheSize + (cacheMessages fourth).count fullMessage =
        (cacheMessages fourth).count compiledMessage := by
  intro commands
  have hword : tokens "a" = Part.tokensAll [.word "a"] := by decide
  have hparse : Condition.parse "a" = .ok (.key "a") := parse_of_condition hword rfl
  have hwords : tokens "a b" = Part.tokensAll [.word "a", .word "b"] := by decide
  have hfails : Condition.parse "a b" = .error (.evenItems 2) := parse_of_fault hwords nofun rfl
  have hfetch : (Engine.fetch "a").run {} =
      ⟨(.ok ⟨0, .key "a"⟩, ⟨.insert {} "a" ⟨0, .key "a"⟩, 1⟩), [.cacheMiss "a" 1]⟩ :=
    Engine.run_fetch_kept (by simp) hparse (by simp [Engine.capacity])
  have hfirst : Kept (Session.step {} (.fetch "t" "a")).events := by
    rw [Session.step, Session.work, hfetch, Kept]
    decide
  obtain ⟨-, hsize, hcalls, hfailing, hother, -⟩ := log_tells_cache commands
  have hrecent : (sinceCleared (Session.log {} commands)).flatMap Entry.events = _ :=
    List.append_nil _
  rw [hrecent] at hsize
  refine ⟨_, _, _, _, _, rfl, hfirst, (hcalls [_] "a" _ _ rfl).mpr ⟨_, ?_, hfirst⟩, hother _ ?_,
    hfailing "a b" _ _ ?_ hfails, fun hhit => ?_, hsize⟩
  · exact List.mem_singleton_self _
  · simp [commands, Session.log, Session.entries]
  · simp [commands, Session.log, Session.entries]
  · obtain ⟨_, hmem, -⟩ := (hcalls [_, _, _, _, _] "a" _ _ rfl).mp hhit
    exact absurd hmem List.not_mem_nil

end KeyRules
