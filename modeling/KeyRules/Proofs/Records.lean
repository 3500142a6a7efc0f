import KeyRules.Proofs.Transparency

/-!
# KeyRules — the numbers of trees

Trees are told apart by their numbers. Behind the numbers stands a record that no engine keeps: the
expression and the condition of every compilation so far, in order. Every tree that is still about,
in the cache or held outside of it, is the entry of the record under its number. So one number
means one tree, and it never means an expression other than its own.

* `Engine.Recorded` — the trees in the cache and the trees held elsewhere agree with a record.
* `Engine.Recorded.fetched`, `Engine.Recorded.works` — asking for expressions extends the record.
* `Engine.Grows` — what is new in a cache has a new number.
* `Engine.Reserved` — a number belongs to one expression and will not be given to another.
-/

namespace KeyRules.Engine

variable {engine mid next : Engine} {held held' : Tree → Prop} {texts : List String}
  {text : String} {tree other : Tree} {events : List Event} {answer : Except Error Tree}
  {record : List (String × Condition)}

/-! ## One number, one tree -/

/-- The record holds every tree under its number, with the expression that the cache has it for. -/
structure Recorded (engine : Engine) (held : Tree → Prop) (record : List (String × Condition)) :
    Prop where
  length_eq : record.length = engine.issued
  cached : ∀ (text : String) (tree : Tree), engine.cache[text]? = some tree →
    record[tree.id]? = some (text, tree.condition)
  held : ∀ tree : Tree, held tree → ∃ text, record[tree.id]? = some (text, tree.condition)

/-- A new engine has an empty record. -/
theorem recorded_of_empty (hcache : engine.cache = {}) (hissued : engine.issued = 0)
    (hheld : ∀ tree, ¬ held tree) : engine.Recorded held [] where
  length_eq := hissued.symm
  cached text tree htree := by simp [hcache] at htree
  held tree htree := absurd htree (hheld tree)

/-- A tree in the cache has a number that was given out, and may be held as well. -/
theorem Recorded.exists_of_cached (h : engine.Recorded held record)
    (hcached : engine.cache[text]? = some tree) :
    ∃ text, record[tree.id]? = some (text, tree.condition) :=
  ⟨text, h.cached text tree hcached⟩

/-- Numbers in the record were given out. -/
theorem Recorded.id_lt (h : engine.Recorded held record)
    (hentry : ∃ text, record[tree.id]? = some (text, tree.condition)) :
    tree.id < engine.issued := by
  obtain ⟨text, hentry⟩ := hentry
  rw [← h.length_eq]
  exact (List.getElem?_eq_some_iff.mp hentry).1

/-- Two entries under one number are one entry. -/
theorem eq_of_recorded {text' : String} (hid : tree.id = other.id)
    (htree : record[tree.id]? = some (text, tree.condition))
    (hother : record[other.id]? = some (text', other.condition)) : text = text' ∧ tree = other := by
  -- both are the entry under this number, which says all of a tree but the number
  rw [hid, hother] at htree
  obtain ⟨rfl, hcondition⟩ := Prod.mk.inj (Option.some.inj htree)
  refine ⟨rfl, ?_⟩
  cases tree
  cases other
  simp_all

/-- Less is held and less is cached. -/
theorem Recorded.shrink (h : engine.Recorded held record) (hissued : next.issued = engine.issued)
    (hcache : ∀ (t : String) (tree : Tree), next.cache[t]? = some tree →
      engine.cache[t]? = some tree)
    (hheld : ∀ tree, held' tree → held tree ∨ ∃ t : String, engine.cache[t]? = some tree) :
    next.Recorded held' record where
  length_eq := by rw [h.length_eq, hissued]
  cached text tree htree := h.cached text tree (hcache text tree htree)
  held tree htree := by
    rcases hheld tree htree with hheld | ⟨text, hcached⟩
    · exact h.held tree hheld
    · exact h.exists_of_cached hcached

/-- One compilation more: the new tree may be cached and may be held. -/
theorem Recorded.concat {c : Condition} (h : engine.Recorded held record)
    (hissued : next.issued = engine.issued + 1)
    (hcache : ∀ (t : String) (tree : Tree), next.cache[t]? = some tree →
      engine.cache[t]? = some tree ∨ t = text ∧ tree = ⟨engine.issued, c⟩)
    (hheld : ∀ tree, held' tree → held tree ∨ tree = ⟨engine.issued, c⟩) :
    next.Recorded held' (record ++ [(text, c)]) := by
  -- the old entries stay where they are, and the new one stands under the next number
  have hold {t : String} {tree : Tree} (hentry : record[tree.id]? = some (t, tree.condition)) :
      (record ++ [(text, c)])[tree.id]? = some (t, tree.condition) := by
    rw [List.getElem?_append_left (List.getElem?_eq_some_iff.mp hentry).1, hentry]
  have hnew : (record ++ [(text, c)])[engine.issued]? = some (text, c) := by
    rw [← h.length_eq, List.getElem?_concat_length]
  refine ⟨?_, ?_, ?_⟩
  · rw [List.length_append, List.length_singleton, h.length_eq, hissued]
  · intro t tree htree
    rcases hcache t tree htree with hcached | ⟨rfl, rfl⟩
    · exact hold (h.cached t tree hcached)
    · exact hnew
  · intro tree htree
    rcases hheld tree htree with hheld | rfl
    · obtain ⟨t, hentry⟩ := h.held tree hheld
      exact ⟨t, hold hentry⟩
    · exact ⟨text, hnew⟩

/-- Asking for an expression extends the record, and what is answered may be held from then on. -/
theorem Recorded.fetched (h : engine.Recorded held record)
    (hfetched : Fetched engine text answer next events) :
    ∃ record, next.Recorded (fun tree => held tree ∨ answer = .ok tree) record := by
  -- the record grows when the expression is compiled, whether the tree is kept or not
  cases hfetched with
  | hit hcached =>
    refine ⟨record, h.shrink rfl (fun _ _ htree => htree) ?_⟩
    rintro t (hheld | hanswer)
    · exact Or.inl hheld
    · rw [← Except.ok.inj hanswer]
      exact Or.inr ⟨text, hcached⟩
  | failed =>
    refine ⟨record, h.shrink rfl (fun _ _ htree => htree) ?_⟩
    rintro t (hheld | hanswer)
    · exact Or.inl hheld
    · cases hanswer
  | @refused c =>
    refine ⟨record ++ [(text, c)], h.concat rfl (fun _ _ htree => Or.inl htree) ?_⟩
    rintro t (hheld | hanswer)
    · exact Or.inl hheld
    · exact Or.inr (Except.ok.inj hanswer).symm
  | @kept c =>
    refine ⟨record ++ [(text, c)], h.concat rfl ?_ ?_⟩
    · exact fun _ _ htree => (getElem?_insert_cases htree).symm.imp_left And.right
    · rintro t (hheld | hanswer)
      · exact Or.inl hheld
      · exact Or.inr (Except.ok.inj hanswer).symm

/-- A tree with a number of its own may be held from then on. -/
theorem Recorded.issue (h : engine.Recorded held record) (c : Condition) :
    ∃ record, Recorded { engine with issued := engine.issued + 1 }
      (fun tree => held tree ∨ tree = ⟨engine.issued, c⟩) record :=
  ⟨record ++ [(c.render, c)], h.concat rfl (fun _ _ htree => Or.inl htree) fun _ htree => htree⟩

/-- A record of more trees is one of fewer, so trees that are dropped need no attention. -/
theorem Recorded.mono (h : ∃ record, engine.Recorded held record)
    (hheld : ∀ tree, held' tree → held tree) : ∃ record, engine.Recorded held' record := by
  obtain ⟨record, h⟩ := h
  exact ⟨record, h.shrink rfl (fun _ _ htree => htree) fun tree htree => Or.inl (hheld tree htree)⟩

/-- Work can always be recorded: by one entry more for each number it takes. -/
theorem Recorded.works (h : ∃ record, engine.Recorded held record)
    (hworks : Works engine texts events next) : ∃ record, next.Recorded held record := by
  refine hworks.preserves (P := fun engine => ∃ record, engine.Recorded held record) ?_ ?_ h
  -- what is handed out on the way is not held, so it is dropped again
  · rintro engine ⟨record, h⟩
    exact mono (h.issue (.key "")) fun _ => Or.inl
  · rintro engine next text answer events hfetched ⟨record, h⟩
    exact mono (h.fetched hfetched) fun _ => Or.inl

/-! ## What is new in a cache -/

/-- Numbers are only given out, and a cache entry that was not there before has a new number. -/
structure Grows (engine next : Engine) : Prop where
  issued_le : engine.issued ≤ next.issued
  old_or_new : ∀ (text : String) (tree : Tree), next.cache[text]? = some tree →
    engine.cache[text]? = some tree ∨ engine.issued ≤ tree.id

theorem Grows.refl (engine : Engine) : engine.Grows engine :=
  ⟨Nat.le_refl _, fun _ _ htree => Or.inl htree⟩

theorem Grows.trans (h : engine.Grows mid) (h' : mid.Grows next) : engine.Grows next where
  issued_le := Nat.le_trans h.issued_le h'.issued_le
  old_or_new text tree htree := by
    rcases h'.old_or_new text tree htree with hmid | hnew
    · exact h.old_or_new text tree hmid
    · exact Or.inr (Nat.le_trans h.issued_le hnew)

/-- Taking a number lets an engine grow. -/
theorem Grows.issue (h : engine.Grows mid) :
    engine.Grows { mid with issued := mid.issued + 1 } where
  issued_le := Nat.le_succ_of_le h.issued_le
  old_or_new := h.old_or_new

/-- Emptying the cache gives no number back, so a tree made later is never taken for one made
before. -/
theorem Grows.clear (h : engine.Grows mid) : engine.Grows { mid with cache := {} } where
  issued_le := h.issued_le
  old_or_new text tree htree := by simp at htree

theorem Fetched.grows (h : Fetched engine text answer next events) : engine.Grows next := by
  cases h with
  | hit | failed => exact .refl engine
  | refused => exact (Grows.refl engine).issue
  | kept =>
    refine ⟨Nat.le_succ _, ?_⟩
    intro t tree htree
    rcases getElem?_insert_cases htree with ⟨-, rfl⟩ | ⟨-, hold⟩
    · exact Or.inr (Nat.le_refl _)
    · exact Or.inl hold

/-- Work only ever takes numbers. -/
theorem Works.grows (h : Works engine texts events next) : engine.Grows next :=
  h.preserves (P := fun next => engine.Grows next) (fun _ h => h.issue)
    (fun hfetched h => h.trans hfetched.grows) (.refl engine)

/-- Asking for expressions removes no entry and replaces none. -/
theorem Works.getElem?_of_cached (h : Works engine texts events next)
    (hcached : engine.cache[text]? = some tree) : next.cache[text]? = some tree := by
  refine h.preserves (P := fun engine => engine.cache[text]? = some tree) (fun _ h => h) ?_ hcached
  intro engine next t answer events hfetched hcached
  cases hfetched with
  | hit | failed | refused => exact hcached
  | kept hnew =>
    -- what is inserted was not there, so it is another expression
    have hne : t ≠ text := by
      rintro rfl
      rw [hnew] at hcached
      cases hcached
    simpa [Std.HashMap.getElem?_insert, hne] using hcached

/-! ## What a number stands for -/

/-- The number of a tree was given out, and in the cache it can only stand for this tree under this
expression. -/
structure Reserved (engine : Engine) (text : String) (tree : Tree) : Prop where
  id_lt : tree.id < engine.issued
  eq_of_id : ∀ (t : String) (other : Tree), engine.cache[t]? = some other → other.id = tree.id →
    t = text ∧ other = tree

/-- A tree whose number is taken stays so. -/
theorem Reserved.grows (h : engine.Reserved text tree) (hgrows : engine.Grows next) :
    next.Reserved text tree where
  id_lt := Nat.lt_of_lt_of_le h.id_lt hgrows.issued_le
  eq_of_id t other hother hid := by
    have hlt := h.id_lt
    rcases hgrows.old_or_new t other hother with hold | hnew
    · exact h.eq_of_id t other hold hid
    · omega

/-- A new tree has a number that no tree in the cache has. -/
theorem reserved_of_new {c : Condition} (h : engine.Recorded held record)
    (hissued : engine.issued < next.issued)
    (hcache : ∀ (t : String) (tree : Tree), next.cache[t]? = some tree →
      engine.cache[t]? = some tree ∨ t = text ∧ tree = ⟨engine.issued, c⟩) :
    next.Reserved text ⟨engine.issued, c⟩ where
  id_lt := hissued
  eq_of_id t other hother hid := by
    rcases hcache t other hother with hold | hnew
    · have hlt := h.id_lt (h.exists_of_cached hold)
      simp only at hid
      omega
    · exact hnew

/-- The number of an answer stands for the expression that was asked for. -/
theorem Fetched.reserved (h : engine.Recorded held record)
    (hfetched : Fetched engine text (.ok tree) next events) : next.Reserved text tree := by
  cases hfetched with
  | hit hcached =>
    -- another expression with this number would have another entry in the record
    have htree := h.cached text tree hcached
    refine ⟨h.id_lt ⟨text, htree⟩, ?_⟩
    intro t other hother hid
    exact eq_of_recorded hid (h.cached t other hother) htree
  | refused => exact reserved_of_new h (Nat.lt_succ_self _) fun _ _ htree => Or.inl htree
  | kept =>
    exact reserved_of_new h (Nat.lt_succ_self _) fun _ _ hother =>
      (getElem?_insert_cases hother).symm.imp_left And.right

/-- An answer that has the number of an earlier tree is that tree, taken from the cache. -/
theorem Fetched.cached_of_id {t : String} (h : engine.Reserved t other)
    (hfetched : Fetched engine text (.ok tree) next events) (hid : other.id = tree.id) :
    text = t ∧ engine.cache[t]? = some other := by
  have hlt := h.id_lt
  cases hfetched with
  | hit hcached =>
    obtain ⟨rfl, rfl⟩ := h.eq_of_id text tree hcached hid.symm
    exact ⟨rfl, hcached⟩
  | refused | kept =>
    -- a tree that was made for this answer has a later number
    simp only at hid
    omega

/-- What the cache holds for an expression right after it was answered is the answer. -/
theorem Fetched.cached_of_mem (hfetched : Fetched engine text (.ok tree) next events)
    (hmem : text ∈ next.cache) : next.cache[text]? = some tree := by
  cases hfetched with
  | hit hcached => exact hcached
  | refused hnew =>
    rw [Std.HashMap.mem_iff_isSome_getElem?] at hmem
    simp [hnew] at hmem
  | kept => simp

end KeyRules.Engine
