import KeyRules.Proofs.Balanced
import KeyRules.Proofs.Sessions

/-!
# KeyRules — what the cache holds

Of the expressions that are taken through the cache after it was emptied, it holds the first that
compile, as many different ones as it has room for, each with its condition. Nothing else changes
it: not an expression that fails or is held already, nor one that comes when the cache is full, nor
any work that does not go through the cache.

* `firstCompiling` — the different expressions that compile, in the order of their first occurrence.
* `Engine.Holds` — the cache holds what was asked for.
* `Engine.Holds.fetched`, `Engine.Holds.works` — one expression more, and some work more.
* `cache_after_clear` — what the cache holds after any commands.
-/

namespace KeyRules

/-- Whether an expression compiles. -/
def compiles (text : String) : Bool :=
  (Condition.parse text).isOk

/-- The different expressions among some that compile, in the order of their first occurrence. -/
def firstCompiling (texts : List String) : List String :=
  (texts.filter compiles).eraseDups

theorem compiles_of_ok {text : String} {c : Condition} (h : Condition.parse text = .ok c) :
    compiles text = true := by
  rw [compiles, h]
  rfl

theorem compiles_of_error {text : String} {e : Error} (h : Condition.parse text = .error e) :
    compiles text = false := by
  rw [compiles, h]
  rfl

/-- An expression that compiles and is new comes last. -/
theorem firstCompiling_concat_new {texts : List String} {text : String}
    (hcompiles : compiles text = true) (hnew : text ∉ firstCompiling texts) :
    firstCompiling (texts ++ [text]) = firstCompiling texts ++ [text] := by
  rw [firstCompiling, List.mem_eraseDups] at hnew
  have hfilter : [text].filter compiles = [text] := by simp [hcompiles]
  -- the new text is none of those before it, so nothing is removed
  have hremove : [text].removeAll (texts.filter compiles) = [text] := by
    rw [List.removeAll, List.filter_eq_self, List.forall_mem_singleton, Bool.not_eq_true',
      ← Bool.not_eq_true, List.elem_iff]
    exact hnew
  rw [firstCompiling, List.filter_append, hfilter, List.eraseDups_append, hremove]
  rfl

/-- Any other expression makes no difference. -/
theorem firstCompiling_concat_old {texts : List String} {text : String}
    (hold : compiles text = true → text ∈ firstCompiling texts) :
    firstCompiling (texts ++ [text]) = firstCompiling texts := by
  rw [firstCompiling, List.filter_append]
  cases hcompiles : compiles text with
  | false => simp [hcompiles, firstCompiling]
  | true =>
    have hmem : text ∈ texts.filter compiles := by
      simpa [firstCompiling, List.mem_eraseDups] using hold hcompiles
    have hfilter : [text].filter compiles = [text] := by simp [hcompiles]
    -- the text is among those before it, so it is removed
    have hremove : [text].removeAll (texts.filter compiles) = [] := by
      simpa [List.removeAll] using hmem
    rw [hfilter, List.eraseDups_append, hremove]
    simp [firstCompiling]

namespace Engine

variable {engine next : Engine} {asked texts : List String} {text : String} {events : List Event}
  {answer : Except Error Tree}

theorem not_mem_of_getElem? (h : engine.cache[text]? = none) : text ∉ engine.cache := by
  rw [Std.HashMap.mem_iff_isSome_getElem?, h]
  exact Bool.false_ne_true

/-- The cache holds the expressions that were asked for, as far as they compile and find room. -/
structure Holds (engine : Engine) (asked : List String) : Prop where
  mem_iff : ∀ text, text ∈ engine.cache ↔ text ∈ (firstCompiling asked).take capacity
  size_eq : engine.cache.size = min (firstCompiling asked).length capacity

/-- An empty cache holds what was asked for when nothing was. -/
theorem holds_of_empty (h : engine.cache = {}) : engine.Holds [] where
  mem_iff text := by simp [h, firstCompiling]
  size_eq := by simp [h, firstCompiling]

/-- Asking for an expression that is not kept changes nothing. -/
theorem Holds.concat_old (h : engine.Holds asked) (hcache : next.cache = engine.cache)
    (hold : compiles text = true → text ∈ firstCompiling asked) : next.Holds (asked ++ [text]) where
  mem_iff t := by rw [firstCompiling_concat_old hold, hcache, h.mem_iff]
  size_eq := by rw [firstCompiling_concat_old hold, hcache, h.size_eq]

/-- A full cache has no room for another expression. -/
theorem Holds.concat_full (h : engine.Holds asked) (hcache : next.cache = engine.cache)
    (hcompiles : compiles text = true) (hnew : text ∉ firstCompiling asked)
    (hfull : capacity ≤ engine.cache.size) : next.Holds (asked ++ [text]) := by
  have hsize := h.size_eq
  -- The list was cut off at the capacity already, so what comes behind is cut off as well.
  have hlen : capacity ≤ (firstCompiling asked).length := by omega
  refine ⟨fun t => ?_, ?_⟩
  · rw [firstCompiling_concat_new hcompiles hnew, hcache, h.mem_iff,
      List.take_append_of_le_length hlen]
  · rw [firstCompiling_concat_new hcompiles hnew, hcache, hsize, List.length_append,
      List.length_singleton]
    omega

/-- A cache with room holds one expression more. -/
theorem Holds.concat_kept {tree : Tree} (h : engine.Holds asked)
    (hcache : next.cache = engine.cache.insert text tree)
    (hcompiles : compiles text = true) (hnew : text ∉ engine.cache)
    (hroom : engine.cache.size < capacity) : next.Holds (asked ++ [text]) := by
  have hsize := h.size_eq
  -- As long as there is room, nothing has been cut off.
  have hlen : (firstCompiling asked).length < capacity := by omega
  have hall : (firstCompiling asked).take capacity = firstCompiling asked :=
    List.take_of_length_le (by omega)
  have hnew' : text ∉ firstCompiling asked := by
    rw [← hall, ← h.mem_iff]
    exact hnew
  have hconcat := firstCompiling_concat_new hcompiles hnew'
  have hall' : (firstCompiling asked ++ [text]).take capacity = firstCompiling asked ++ [text] :=
    List.take_of_length_le (by rw [List.length_append]; exact hlen)
  refine ⟨fun t => ?_, ?_⟩
  · have hmem := h.mem_iff t
    rw [hall] at hmem
    rw [hconcat, hall', hcache, Std.HashMap.mem_insert, hmem, List.mem_append, List.mem_singleton,
      beq_iff_eq, or_comm, eq_comm]
  · rw [hconcat, hcache, Std.HashMap.size_insert, if_neg hnew, hsize, List.length_append,
      List.length_singleton]
    omega

/-- Asking for one expression more. It is added to what the cache holds exactly where it is new,
compiles and finds room, which are the three conditions of the first texts that compile. -/
theorem Holds.fetched (h : engine.Holds asked) (hfetched : Fetched engine text answer next events) :
    next.Holds (asked ++ [text]) := by
  cases hfetched with
  | hit hcached =>
    refine h.concat_old rfl fun _ => ?_
    have hmem : text ∈ engine.cache := Std.HashMap.mem_iff_isSome_getElem?.mpr (by simp [hcached])
    exact List.mem_of_mem_take ((h.mem_iff text).mp hmem)
  | failed hnew hparse =>
    refine h.concat_old rfl fun hcompiles => ?_
    simp [compiles_of_error hparse] at hcompiles
  | refused hnew hparse hfull =>
    -- the expression may be one that was refused before
    by_cases hmem : text ∈ firstCompiling asked
    · exact h.concat_old rfl fun _ => hmem
    · exact h.concat_full rfl (compiles_of_ok hparse) hmem hfull
  | kept hnew hparse hroom =>
    exact h.concat_kept rfl (compiles_of_ok hparse) (not_mem_of_getElem? hnew) hroom

/-- Some work more: the texts it asks for are added in order, one after the other. -/
theorem Holds.works (h : engine.Holds asked) (hworks : Works engine texts events next) :
    next.Holds (asked ++ texts) := by
  induction hworks generalizing asked with
  | done => simpa using h
  | issue _ ih => exact ih ⟨h.mem_iff, h.size_eq⟩
  | emit _ _ ih => exact ih h
  | @ask engine mid next text texts answer reported events hfetched _ ih =>
    have hnext := ih (h.fetched hfetched)
    rwa [List.append_assoc] at hnext

/-! ## What leaves the cache alone -/

/-- An expression for which the cache is not changed: it fails, is held, or finds no room. -/
def Idle (engine : Engine) (text : String) : Prop :=
  (∃ e, Condition.parse text = .error e) ∨ text ∈ engine.cache ∨ capacity ≤ engine.cacheSize

/-- An idle expression leaves the cache alone, however it is answered. -/
theorem Fetched.cache_eq (h : Fetched engine text answer next events) (hidle : engine.Idle text) :
    next.cache = engine.cache := by
  cases h with
  | hit | failed | refused => rfl
  | kept hnew hparse hroom =>
    rcases hidle with ⟨e, he⟩ | hmem | hfull
    · cases he.symm.trans hparse
    · exact absurd hmem (not_mem_of_getElem? hnew)
    · exact absurd hroom (Nat.not_lt.mpr hfull)

/-- Work on idle expressions leaves the cache alone: none of them makes another one less idle. -/
theorem Works.cache_eq (h : Works engine texts events next)
    (hidle : ∀ text ∈ texts, engine.Idle text) : next.cache = engine.cache := by
  induction h with
  | done => rfl
  | issue _ ih => exact ih hidle
  | emit _ _ ih => exact ih hidle
  | @ask engine mid next text texts answer reported events hfetched _ ih =>
    -- the first text leaves the cache as it was, so the rest is as idle as before
    have hmid : mid.cache = engine.cache := hfetched.cache_eq (hidle text (by simp))
    rw [← hmid]
    refine ih fun t ht => ?_
    rw [Idle, cacheSize, hmid]
    exact hidle t (List.mem_cons_of_mem _ ht)

end Engine

/-! ## Sessions -/

/-- The cache after any commands since it was emptied: it holds the first 4096 different
expressions among those that the commands took through it, as far as they compile, each with its
condition. A command leaves it as it was if all expressions it asks for fail, are held or find no
room, and in particular if it asks for none. -/
theorem cache_after_clear :
    (∀ (s : Session) (commands : List Command), .clear ∉ commands →
      let called := firstCompiling (commands.flatMap Command.texts)
      let engine := (s.after (.clear :: commands)).engine
      (∀ text, text ∈ engine.cache ↔ text ∈ called.take 4096) ∧
        engine.cacheSize = min called.length 4096 ∧
        ∀ text tree, engine.cache[text]? = some tree →
          Condition.parse text = .ok tree.condition) ∧
    ∀ (s : Session) (command : Command), command ≠ .clear →
      (∀ text ∈ command.texts, (∃ e, Condition.parse text = .error e) ∨ text ∈ s.engine.cache ∨
        4096 ≤ s.engine.cacheSize) →
      (s.step command).value.2.engine.cache = s.engine.cache := by
  constructor
  · intro s commands hclear called engine
    -- without another clearing, commands are work that starts at the empty cache
    have hworks := Session.works_run (s.step .clear).value.2 hclear
    have hholds := (Engine.holds_of_empty rfl).works hworks
    rw [List.nil_append] at hholds
    exact ⟨hholds.mem_iff, hholds.size_eq, (Engine.sound_of_empty rfl).works hworks⟩
  · intro s command hclear hidle
    exact (Session.works_step s hclear).cache_eq hidle

open Expression in
/-- Of four calls one fails, one repeats another, and two texts of one condition are held apart; the
rule that is built in between is not held, and a failing check changes nothing. -/
theorem cache_after_mixed_calls :
    let commands : List Command := [.cached "r" "a", .check "a b" (.scalar .null), .build "q" "b",
      .fetch "t" " a", .cached "s" "a"]
    let s := Session.after {} (.clear :: commands)
    .clear ∉ commands ∧ firstCompiling (commands.flatMap Command.texts) = ["a", " a"] ∧
      s.engine.cacheSize = 2 ∧ "a" ∈ s.engine.cache ∧ " a" ∈ s.engine.cache ∧ "b" ∉ s.engine.cache ∧
      (s.step (.check "a b" (.scalar .null))).value.2.engine.cache = s.engine.cache := by
  intro commands s
  -- `a` and ` a` have the same tokens, so one argument gives both
  have hword : ∀ text, tokens text = Part.tokensAll [.word "a"] → compiles text = true := by
    intro text htext
    have hparse : Condition.parse text = .ok (.key "a") := parse_of_condition htext rfl
    exact compiles_of_ok hparse
  have hplain : compiles "a" = true := hword "a" (by decide)
  have hblank : compiles " a" = true := hword " a" (by decide)
  have hpair : tokens "a b" = Part.tokensAll [.word "a", .word "b"] := by decide
  have hparse : Condition.parse "a b" = .error (.evenItems 2) := parse_of_fault hpair nofun rfl
  have hfails : compiles "a b" = false := compiles_of_error hparse
  have hclear : .clear ∉ commands := by simp [commands]
  have hcalled : firstCompiling (commands.flatMap Command.texts) = ["a", " a"] := by
    have hfilter : ["a", "a b", " a", "a"].filter compiles = ["a", " a", "a"] := by
      simp [hplain, hblank, hfails]
    show (["a", "a b", " a", "a"].filter compiles).eraseDups = ["a", " a"]
    rw [hfilter]
    decide
  obtain ⟨hmem, hsize, -⟩ := cache_after_clear.1 {} commands hclear
  rw [hcalled] at hmem hsize
  refine ⟨hclear, hcalled, hsize, (hmem "a").mpr (by decide), (hmem " a").mpr (by decide),
    fun h => absurd ((hmem "b").mp h) (by decide), cache_after_clear.2 s _ (by simp) ?_⟩
  intro text htext
  obtain rfl := List.mem_singleton.mp htext
  exact Or.inl ⟨_, hparse⟩

end KeyRules
