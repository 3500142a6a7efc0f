import KeyRules.Engine

/-!
# KeyRules — what asking for an expression does

An expression that is taken through the cache is in one of four cases: the cache has it, it does
not compile, it compiles while the cache is full, or it compiles and is kept. `Fetched` says for
each what is answered, what becomes of the engine and which events are reported, and nothing else
happens. What other work does to an engine follows from the work it consists of.

* `Engine.Fetched` — the four cases.
* `Engine.fetched_fetch` — asking for an expression is one of them.
* `Engine.after` — the engine that some work leaves behind.
* `Engine.Works` — how expressions, one asked for after the other, change an engine.
* `Engine.Asks` — which expressions some work asks for, with one lemma for each way to put work
  together.
* `Engine.Works.preserves` — what asking for one expression keeps, work keeps.
* `Engine.Sound` — every cached tree is the compiled form of its expression, whatever work was done.
-/

namespace KeyRules

/-- What a map holds after one more entry was put into it. -/
theorem getElem?_insert_cases {α : Type} {entries : Std.HashMap String α} {value found : α}
    {key written : String} (h : (entries.insert written value)[key]? = some found) :
    key = written ∧ found = value ∨ key ≠ written ∧ entries[key]? = some found := by
  rw [Std.HashMap.getElem?_insert] at h
  split at h
  · rename_i heq
    exact Or.inl ⟨(beq_iff_eq.mp heq).symm, (Option.some.inj h).symm⟩
  · rename_i hne
    exact Or.inr ⟨fun heq => hne (by simp [heq]), h⟩

namespace Engine

/-- What asking for an expression answers, what becomes of the engine, and the events. -/
inductive Fetched (engine : Engine) (text : String) :
    Except Error Tree → Engine → List Event → Prop where
  | hit {tree : Tree} (hcached : engine.cache[text]? = some tree) :
      Fetched engine text (.ok tree) engine [.cacheHit text]
  | failed {e : Error} (hnew : engine.cache[text]? = none)
      (hparse : Condition.parse text = .error e) : Fetched engine text (.error e) engine []
  | refused {c : Condition} (hnew : engine.cache[text]? = none)
      (hparse : Condition.parse text = .ok c) (hfull : capacity ≤ engine.cache.size) :
      Fetched engine text (.ok ⟨engine.issued, c⟩) { engine with issued := engine.issued + 1 }
        [.cacheMiss text c.size, .cacheFull text]
  | kept {c : Condition} (hnew : engine.cache[text]? = none)
      (hparse : Condition.parse text = .ok c) (hroom : engine.cache.size < capacity) :
      Fetched engine text (.ok ⟨engine.issued, c⟩)
        { cache := engine.cache.insert text ⟨engine.issued, c⟩, issued := engine.issued + 1 }
        [.cacheMiss text c.size]

variable {α β : Type} {engine : Engine} {text : String} {e : Error} {c : Condition} {tree : Tree}

/-- The engine that some work leaves behind. -/
def after (w : Work α) (engine : Engine) : Engine :=
  (w.run engine).value.2

theorem run_compile_error (hparse : Condition.parse text = .error e) :
    (compile text).run engine = pure (.error e, engine) := by
  simp only [compile, hparse]
  rfl

/-- Compiling gives the condition a number of its own. The number is used up even when the cache
turns the tree away. -/
theorem run_compile_ok (hparse : Condition.parse text = .ok c) : (compile text).run engine =
    pure (.ok ⟨engine.issued, c⟩, { engine with issued := engine.issued + 1 }) := by
  simp only [compile, hparse]
  rfl

/-- What keeping a tree does: nothing where one is kept for the expression already, a report where
the cache is full, and one more entry otherwise. -/
theorem run_keep (engine : Engine) (text : String) (tree : Tree) : (keep text tree).run engine =
    match engine.cache[text]? with
    | some earlier => pure (earlier, engine)
    | none =>
      if capacity ≤ engine.cache.size then ⟨(tree, engine), [.cacheFull text]⟩
      else pure (tree, { engine with cache := engine.cache.insert text tree }) := by
  rw [keep, StateT.run_bind, StateT.run_get, pure_bind]
  cases engine.cache[text]? with
  | some earlier => rfl
  | none =>
    dsimp only
    rw [StateT.run_bind, StateT.run_get, pure_bind]
    split <;> rfl

/-! ## The four cases -/

/-- An expression that the cache has is answered from there. -/
theorem run_fetch_hit (hcached : engine.cache[text]? = some tree) :
    (fetch text).run engine = ⟨(.ok tree, engine), [.cacheHit text]⟩ := by
  rw [fetch, StateT.run_bind, StateT.run_get, pure_bind]
  simp only [hcached]
  rfl

/-- An expression that does not compile leaves no trace. -/
theorem run_fetch_failed (hnew : engine.cache[text]? = none)
    (hparse : Condition.parse text = .error e) :
    (fetch text).run engine = pure (.error e, engine) := by
  rw [fetch, StateT.run_bind, StateT.run_get, pure_bind]
  simp only [hnew]
  rw [compileAndKeep, StateT.run_bind, run_compile_error hparse, pure_bind]
  rfl

/-- An expression that compiles takes a number before its tree is kept, so keeping starts from the
next engine. -/
theorem run_fetch_new (hnew : engine.cache[text]? = none)
    (hparse : Condition.parse text = .ok c) : (fetch text).run engine =
      (do
        Traced.emit (.cacheMiss text c.size)
        let (tree, next) ←
          (keep text ⟨engine.issued, c⟩).run { engine with issued := engine.issued + 1 }
        return (.ok tree, next)) := by
  rw [fetch, StateT.run_bind, StateT.run_get, pure_bind]
  simp only [hnew]
  rw [compileAndKeep, StateT.run_bind, run_compile_ok hparse, pure_bind]
  rfl

/-- A full cache does not keep the tree, and says so. -/
theorem run_fetch_refused (hnew : engine.cache[text]? = none)
    (hparse : Condition.parse text = .ok c) (hfull : capacity ≤ engine.cache.size) :
    (fetch text).run engine =
      ⟨(.ok ⟨engine.issued, c⟩, { engine with issued := engine.issued + 1 }),
        [.cacheMiss text c.size, .cacheFull text]⟩ := by
  rw [run_fetch_new hnew hparse, run_keep]
  simp only [hnew]
  rw [if_pos hfull]
  rfl

/-- A cache with room keeps the tree. The entry is new, so no other tree is given in its place. -/
theorem run_fetch_kept (hnew : engine.cache[text]? = none)
    (hparse : Condition.parse text = .ok c) (hroom : engine.cache.size < capacity) :
    (fetch text).run engine =
      ⟨(.ok ⟨engine.issued, c⟩,
        { cache := engine.cache.insert text ⟨engine.issued, c⟩, issued := engine.issued + 1 }),
        [.cacheMiss text c.size]⟩ := by
  rw [run_fetch_new hnew hparse, run_keep]
  simp only [hnew]
  rw [if_neg (Nat.not_le.mpr hroom)]
  rfl

/-- Asking for an expression is one of the four cases. All that is known of the engine elsewhere
comes from here. -/
theorem fetched_fetch (engine : Engine) (text : String) :
    Fetched engine text ((fetch text).run engine).value.1 (after (fetch text) engine)
      ((fetch text).run engine).events := by
  rw [after]
  cases hcached : engine.cache[text]? with
  | some tree =>
    rw [run_fetch_hit hcached]
    exact .hit hcached
  | none =>
    cases hparse : Condition.parse text with
    | error e =>
      rw [run_fetch_failed hcached hparse]
      exact .failed hcached hparse
    | ok c =>
      -- only a new tree asks whether there is room
      rcases Nat.lt_or_ge engine.cache.size capacity with hroom | hfull
      · rw [run_fetch_kept hcached hparse hroom]
        exact .kept hcached hparse hroom
      · rw [run_fetch_refused hcached hparse hfull]
        exact .refused hcached hparse hfull

/-! ## Work in general -/

/-- Whether an event tells of the cache. -/
def ofCache : Event → Bool
  | .cacheHit _ | .cacheMiss _ _ | .cacheFull _ => true
  | _ => false

/-- How work takes an engine from one state to another: expressions are asked for in the order
given, and what else happens neither changes the cache nor tells of it. -/
inductive Works : Engine → List String → List Event → Engine → Prop where
  | done (engine : Engine) : Works engine [] [] engine
  | issue {engine next : Engine} {texts : List String} {events : List Event}
      (h : Works { engine with issued := engine.issued + 1 } texts events next) :
      Works engine texts events next
  | emit {engine next : Engine} {texts : List String} {event : Event} {events : List Event}
      (hother : ofCache event = false) (h : Works engine texts events next) :
      Works engine texts (event :: events) next
  | ask {engine mid next : Engine} {text : String} {texts : List String}
      {answer : Except Error Tree} {reported events : List Event}
      (hfetched : Fetched engine text answer mid reported) (h : Works mid texts events next) :
      Works engine (text :: texts) (reported ++ events) next

/-- What is said of some work and a list of texts, and goes on from part to part, holds of a
loop. -/
theorem foldlM_of_bind {γ : Type} {P : Work β → List String → Prop} {step : β → γ → Work β}
    {texts : γ → List String} (hpure : ∀ b, P (pure b) [])
    (hbind : ∀ {w : Work β} {f : β → Work β} {ts us : List String}, P w ts → (∀ b, P (f b) us) →
      P (w >>= f) (ts ++ us))
    (h : ∀ b x, P (step b x) (texts x)) (xs : List γ) (b : β) :
    P (xs.foldlM step b) (xs.flatMap texts) := by
  induction xs generalizing b with
  | nil => exact hpure b
  | cons x xs ih =>
    rw [List.foldlM_cons, List.flatMap_cons]
    exact hbind (h b x) ih

/-- Some work asks for the given expressions, whatever state the engine is in. -/
def Asks (w : Work α) (texts : List String) : Prop :=
  ∀ engine, Works engine texts (w.run engine).events (after w engine)

variable {mid next : Engine} {ts us : List String} {es fs : List Event} {w : Work α}
  {f : α → Work β}

/-- Work after other work asks for the texts of both, in order. Sequences of commands are taken
apart by this. -/
theorem Works.trans (h : Works engine ts es mid) (h' : Works mid us fs next) :
    Works engine (ts ++ us) (es ++ fs) next := by
  induction h with
  | done => exact h'
  | issue _ ih => exact .issue (ih h')
  | emit hother _ ih => exact .emit hother (ih h')
  | ask hfetched _ ih =>
    rw [List.append_assoc]
    exact .ask hfetched (ih h')

theorem Asks.pure (value : α) : Asks (Pure.pure value) [] := fun engine => .done engine

/-- Work whose second part asks for the same whatever the first part answers. -/
theorem Asks.bind (h : Asks w ts) (hf : ∀ value, Asks (f value) us) : Asks (w >>= f) (ts ++ us) :=
  fun engine => (h engine).trans (hf _ (after w engine))

/-- Work on the answer of other work asks for nothing more. -/
theorem Asks.bind_silent (h : Asks w ts) (hf : ∀ value, Asks (f value) []) : Asks (w >>= f) ts := by
  simpa using h.bind hf

theorem Asks.map (h : Asks w ts) (g : α → β) : Asks (g <$> w) ts := by
  rw [map_eq_pure_bind]
  exact h.bind_silent fun value => .pure (g value)

/-- A loop asks for what its rounds ask for, in the order of the rounds; a rule set is made by
such a loop. -/
theorem Asks.foldlM {γ : Type} {step : β → γ → Work β} {texts : γ → List String}
    (h : ∀ b x, Asks (step b x) (texts x)) (xs : List γ) (b : β) :
    Asks (xs.foldlM step b) (xs.flatMap texts) :=
  foldlM_of_bind Asks.pure Asks.bind h xs b

/-- A loop over silent work is silent. -/
theorem Asks.mapM_silent {γ : Type} {step : γ → Work β} (h : ∀ x, Asks (step x) [])
    (xs : List γ) : Asks (xs.mapM step) [] := by
  induction xs with
  | nil => exact .pure []
  | cons x xs ih =>
    rw [List.mapM_cons]
    exact (h x).bind_silent fun value => ih.bind_silent fun values => .pure (value :: values)

/-- Fetching an expression asks for this one and no other. -/
theorem asks_fetch (text : String) : Asks (fetch text) [text] := by
  intro engine
  simpa using Works.ask (fetched_fetch engine text) (.done _)

/-- Checking an expression asks for what fetching it asks for. -/
theorem asks_check {γ : Type} [HasKeys γ] (text : String) (candidate : γ) :
    Asks (check text candidate) [text] :=
  (asks_fetch text).bind_silent fun _ => .pure _

theorem asks_issue (c : Condition) : Asks (issue c) [] := fun _ => .issue (.done _)

/-- A report that is not about the cache counts as silent work. -/
theorem asks_emit {event : Event} (hother : ofCache event = false) : Asks (Engine.emit event) [] :=
  fun _ => .emit hother (.done _)

/-- Compiling asks the cache for nothing. -/
theorem asks_compile (text : String) : Asks (compile text) [] := by
  unfold compile
  split
  · exact (asks_issue _).map _
  · exact .pure _

/-! ## Sound engines -/

variable {answer : Except Error Tree} {texts : List String} {events : List Event}
  {P : Engine → Prop}

/-- What asking for one expression keeps, and taking a number keeps, all work keeps. -/
theorem Works.preserves (h : Works engine texts events next)
    (hissue : ∀ engine : Engine, P engine → P { engine with issued := engine.issued + 1 })
    (hfetched : ∀ {engine next text answer events}, Fetched engine text answer next events →
      P engine → P next) (hP : P engine) : P next := by
  induction h with
  | done => exact hP
  | issue _ ih => exact ih (hissue _ hP)
  | emit _ _ ih => exact ih hP
  | ask hask _ ih => exact ih (hfetched hask hP)

/-- Every tree in the cache is the compiled form of the expression it is kept for. -/
def Sound (engine : Engine) : Prop :=
  ∀ text tree, engine.cache[text]? = some tree → Condition.parse text = .ok tree.condition

/-- Asking for an expression keeps the cache sound: what is added is the tree that was just
compiled from it. -/
theorem Sound.fetched (hfetched : Fetched engine text answer next events) (h : engine.Sound) :
    next.Sound := by
  cases hfetched with
  | hit | failed | refused => exact h
  | @kept c hnew hparse hroom =>
    intro t tree htree
    -- only the new entry has to be looked at, and it was compiled just now
    rcases getElem?_insert_cases htree with ⟨rfl, rfl⟩ | ⟨-, hold⟩
    · exact hparse
    · exact h t tree hold

/-- No work puts a wrong tree into the cache, since all it can do there is to ask for expressions.
-/
theorem Sound.works (h : engine.Sound) (hworks : Works engine texts events next) : next.Sound :=
  hworks.preserves (fun _ h => h) Sound.fetched h

/-- An empty cache holds nothing wrong. -/
theorem sound_of_empty (h : engine.cache = {}) : engine.Sound := by
  intro text tree htree
  simp [h] at htree

/-- What is answered is what compiling gives, wherever it comes from. -/
theorem Sound.answer_eq (h : engine.Sound) (hfetched : Fetched engine text answer next events) :
    answer.map Tree.condition = Condition.parse text := by
  cases hfetched with
  | hit hcached => exact (h _ _ hcached).symm
  | failed _ hparse | refused _ hparse _ | kept _ hparse _ => exact hparse.symm

end Engine

end KeyRules
