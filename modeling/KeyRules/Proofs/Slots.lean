import KeyRules.Proofs.Records

/-!
# KeyRules — what a command does to the slots

A command leaves the slots alone, or it fills one: with a rule that it made, with a copy of a rule,
or with a tree. A tree that comes into a slot so was in the cache already or has a new number, and
a rule that does not come from a command comes from a slot.

* `Engine.Gives` — how an engine comes to hand out a tree.
* `Session.source?`, `Session.ancestor?` — the slot that a rule was copied from.
* `Session.Stepped`, `Session.stepped` — what a command does to the slots, in four cases.
* `Session.getElem?_ancestor` — the rule of a slot is the one that stood in its ancestor.
-/

namespace KeyRules

/-! ## Where trees come from -/

namespace Engine

variable {engine next : Engine} {held : Tree → Prop} {tree : Tree} {tree? : Option Tree}

/-- How an engine comes to hand out a tree, or none. -/
inductive Gives (engine : Engine) : Option Tree → Engine → Prop where
  | nothing : Gives engine none engine
  | own (c : Condition) :
      Gives engine (some ⟨engine.issued, c⟩) { engine with issued := engine.issued + 1 }
  | fetched {text : String} {tree : Tree} {next : Engine} {events : List Event}
      (h : Fetched engine text (.ok tree) next events) : Gives engine (some tree) next

/-- What is handed out is new or was in the cache. -/
theorem Gives.new_or_cached (h : Gives engine (some tree) next) :
    engine.issued ≤ tree.id ∨ ∃ text : String, engine.cache[text]? = some tree := by
  cases h with
  | own => exact Or.inl (Nat.le_refl _)
  | fetched h =>
    cases h with
    | hit hcached => exact Or.inr ⟨_, hcached⟩
    | refused | kept => exact Or.inl (Nat.le_refl _)

/-- Where nothing is handed out, nothing happened. -/
theorem Gives.eq_of_none (h : Gives engine none next) : next = engine := by
  cases h
  rfl

/-- Work that hands out a tree can be recorded, with the tree among those in use. -/
theorem Recorded.gives (h : ∃ record, engine.Recorded held record)
    (hgives : Gives engine tree? next) :
    ∃ record, next.Recorded (fun tree => held tree ∨ tree? = some tree) record := by
  obtain ⟨record, h⟩ := h
  cases hgives with
  | nothing => exact mono ⟨record, h⟩ fun _ htree => htree.resolve_right nofun
  | own c =>
    exact mono (h.issue c) fun _ htree => htree.imp_right fun heq => (Option.some.inj heq).symm
  | fetched hfetched =>
    exact mono (h.fetched hfetched) fun _ htree =>
      htree.imp_right fun heq => congrArg Except.ok (Option.some.inj heq)

/-- An expression that fails leaves the engine as it was. -/
theorem Fetched.eq_of_error {text : String} {e : Error} {events : List Event}
    (h : Fetched engine text (.error e) next events) : next = engine := by
  cases h
  rfl

/-! ## Rules -/

variable (engine) (text : String)

theorem after_ofResult (result : Except Error Tree) :
    after (Rule.ofResult text result) engine = engine := by
  cases result <;> rfl

theorem tree?_ofResult (result : Except Error Tree) :
    ((Rule.ofResult text result).run engine).value.1.tree? = result.toOption := by
  cases result <;> rfl

/-- The rule of an expression has a tree of its own, or none. -/
theorem build_cases :
    (((Rule.build text).run engine).value.1.tree? = none ∧
      after (Rule.build text) engine = engine) ∨
    ∃ c, ((Rule.build text).run engine).value.1.tree? = some ⟨engine.issued, c⟩ ∧
      after (Rule.build text) engine = { engine with issued := engine.issued + 1 } := by
  -- a rule is made of the result of compiling, which takes a number if there is a tree
  have hafter : after (Rule.build text) engine =
      after (Rule.ofResult text ((compile text).run engine).value.1)
        (after (compile text) engine) := rfl
  have htree : ((Rule.build text).run engine).value.1.tree? =
      ((compile text).run engine).value.1.toOption :=
    tree?_ofResult (after (compile text) engine) text _
  rw [hafter, after_ofResult, htree, after]
  cases hparse : Condition.parse text with
  | ok c =>
    rw [run_compile_ok hparse]
    exact Or.inr ⟨c, rfl, rfl⟩
  | error e =>
    rw [run_compile_error hparse]
    exact Or.inl ⟨rfl, rfl⟩

/-- Building a rule hands out a tree of its own, or none. -/
theorem gives_build :
    Gives engine ((Rule.build text).run engine).value.1.tree? (after (Rule.build text) engine) := by
  rcases build_cases engine text with ⟨htree, hafter⟩ | ⟨c, htree, hafter⟩
  · rw [htree, hafter]
    exact .nothing
  · rw [htree, hafter]
    exact .own c

/-- The rule of a fetched expression has the tree that was answered. -/
theorem tree?_cached : ((Rule.cached text).run engine).value.1.tree? =
    ((fetch text).run engine).value.1.toOption :=
  tree?_ofResult (after (fetch text) engine) text _

theorem after_cached : after (Rule.cached text) engine = after (fetch text) engine :=
  after_ofResult (after (fetch text) engine) text ((fetch text).run engine).value.1

/-- What is fetched is handed out. -/
theorem gives_fetch :
    Gives engine ((fetch text).run engine).value.1.toOption (after (fetch text) engine) := by
  have hfetched := fetched_fetch engine text
  cases hresult : ((fetch text).run engine).value.1 with
  | ok tree =>
    rw [hresult] at hfetched
    exact .fetched hfetched
  | error e =>
    rw [hresult] at hfetched
    -- an error gives no tree and leaves the engine as it was
    rw [hfetched.eq_of_error]
    exact .nothing

/-- A cached rule hands out the tree of its expression. -/
theorem gives_cached :
    Gives engine ((Rule.cached text).run engine).value.1.tree?
      (after (Rule.cached text) engine) := by
  rw [tree?_cached, after_cached]
  exact gives_fetch engine text

end Engine

/-! ## What a command does to the slots -/

namespace Session

open Engine (Works Gives)

variable {s next : Session} {command : Command} {slot text : String} {tree : Tree} {rule : Rule}

/-- The slot that the rule of a slot stood in before a command; none if the command made it. -/
def source? (s : Session) (command : Command) (slot : String) : Option String :=
  match command with
  | .build written _ | .cached written _ | .blank written =>
    if slot = written then none else some slot
  | .update written _ => if slot = written ∧ written ∈ s.rules then none else some slot
  | .adopt written source =>
    if slot = written ∧ source.condition.isOk then none else some slot
  | .clone model written => if slot = written ∧ model ∈ s.rules then some model else some slot
  | _ => some slot

/-- The slot that the rule of a slot stood in before some commands, copied or not; none if one of
them made it. -/
def ancestor? (s : Session) : List Command → String → Option String
  | [], slot => some slot
  | command :: commands, slot =>
    ((s.step command).value.2.ancestor? commands slot).bind (s.source? command)

/-- What a command does to the slots: nothing, or it puts a rule that it made, a copy of a rule, or
a tree into a slot. -/
inductive Stepped (s : Session) (command : Command) : Session → Prop where
  | still {engine : Engine} (hsource : ∀ slot, s.source? command slot = some slot)
      (hengine : (∃ texts events, Works s.engine texts events engine) ∨
        engine = { s.engine with cache := {} }) :
      Stepped s command { s with engine }
  | put {engine : Engine} {written : String} {rule : Rule}
      (hsource : ∀ slot, s.source? command slot = if slot = written then none else some slot)
      (hgives : Gives s.engine rule.tree? engine) :
      Stepped s command { s with engine, rules := s.rules.insert written rule }
  | copied {model written : String} {rule : Rule}
      (hsource : ∀ slot, s.source? command slot = if slot = written then some model else some slot)
      (hrule : s.rules[model]? = some rule) :
      Stepped s command { s with rules := s.rules.insert written rule }
  | keep {engine : Engine} {written : String} {tree : Tree}
      (hsource : ∀ slot, s.source? command slot = some slot)
      (hgives : Gives s.engine (some tree) engine) :
      Stepped s command { s with engine, trees := s.trees.insert written tree }

/-- A command that does no work, or leaves the slots alone. -/
theorem stepped_idle (hsource : ∀ slot, s.source? command slot = some slot) :
    Stepped s command s :=
  .still hsource (Or.inl ⟨[], [], .done _⟩)

theorem mem_rules_iff : slot ∈ s.rules ↔ ∃ rule, s.rules[slot]? = some rule := by
  rw [Std.HashMap.mem_iff_isSome_getElem?, Option.isSome_iff_exists]

/-- Fetching stores the tree that was answered, and changes no slot when there is none. -/
theorem value_fetch (s : Session) (slot text : String) : (s.step (.fetch slot text)).value =
    match ((Engine.fetch text).run s.engine).value.1 with
    | .ok tree => (.tree tree, { s with
        engine := Engine.after (Engine.fetch text) s.engine, trees := s.trees.insert slot tree })
    | .error e => (.error e, { s with engine := Engine.after (Engine.fetch text) s.engine }) := by
  simp only [step, work, Traced.value_bind]
  cases hresult : ((Engine.fetch text).run s.engine).value.1 <;> rfl

/-- A command that leaves the slots alone. -/
theorem stepped_still (hclear : command ≠ .clear)
    (hsource : ∀ slot, s.source? command slot = some slot)
    (hslots : (s.step command).value.2 = { s with engine := (s.step command).value.2.engine }) :
    Stepped s command (s.step command).value.2 := by
  rw [hslots]
  exact .still hsource (Or.inl ⟨_, _, works_step s hclear⟩)

/-- Every command does one of these. -/
theorem stepped (s : Session) (command : Command) :
    Stepped s command (s.step command).value.2 := by
  cases command with
  | build slot text => exact .put (fun _ => rfl) (Engine.gives_build s.engine text)
  | cached slot text => exact .put (fun _ => rfl) (Engine.gives_cached s.engine text)
  | blank slot => exact .put (fun _ => rfl) .nothing
  | adopt slot source =>
    have hsource : ∀ y, s.source? (.adopt slot source) y =
        if y = slot ∧ source.condition.isOk then none else some y := fun _ => rfl
    simp only [step]
    cases hcondition : source.condition with
    | ok c =>
      refine .put (fun y => ?_) (.own c)
      simp [hsource, hcondition, Except.isOk, Except.toBool]
    | error e =>
      -- a source without a condition leaves the rule that stands there
      refine stepped_idle fun y => ?_
      simp [hsource, hcondition, Except.isOk, Except.toBool]
  | clone model slot =>
    have hsource : ∀ y, s.source? (.clone model slot) y =
        if y = slot ∧ model ∈ s.rules then some model else some y := fun _ => rfl
    simp only [step]
    cases hrule : s.rules[model]? with
    | some rule =>
      refine .copied (fun y => ?_) hrule
      simp [hsource, mem_rules_iff.mpr ⟨rule, hrule⟩]
    | none =>
      refine stepped_idle fun y => ?_
      simp [hsource, mem_rules_iff, hrule]
  | update slot text =>
    have hsource : ∀ y, s.source? (.update slot text) y =
        if y = slot ∧ slot ∈ s.rules then none else some y := fun _ => rfl
    simp only [step]
    cases hrule : s.rules[slot]? with
    | some rule =>
      refine .put (fun y => ?_) (Engine.gives_build s.engine text)
      simp [hsource, mem_rules_iff.mpr ⟨rule, hrule⟩]
    | none =>
      refine stepped_idle fun y => ?_
      simp [hsource, mem_rules_iff, hrule]
  -- the others only look at a rule
  | state slot =>
    simp only [step]
    split <;> exact stepped_idle fun _ => rfl
  | test slot candidate =>
    simp only [step]
    split <;> exact stepped_idle fun _ => rfl
  | fetch slot text =>
    have hgives := Engine.gives_fetch s.engine text
    rw [value_fetch]
    cases hresult : ((Engine.fetch text).run s.engine).value.1 with
    | ok tree =>
      rw [hresult] at hgives
      exact .keep (fun _ => rfl) hgives
    | error e =>
      -- an expression that fails is not even kept in the engine
      rw [hresult] at hgives
      rw [hgives.eq_of_none]
      exact stepped_idle fun _ => rfl
  | check text candidate =>
    refine stepped_still (by simp) (fun _ => rfl) ?_
    simp only [step, work, Traced.value_bind]
    cases ((Engine.check text candidate).run s.engine).value.1 <;> rfl
  | fill stem count => exact stepped_still (by simp) (fun _ => rfl) rfl
  | load config =>
    refine stepped_still (by simp) (fun _ => rfl) ?_
    simp only [step, work, Traced.value_bind]
    cases ((RuleSet.ofText config).run s.engine).value.1 <;> rfl
  | clear => exact .still (fun _ => rfl) (Or.inr rfl)
  | compare left right => exact stepped_idle fun _ => rfl

/-! ## Sources -/

/-- The rule of a slot is the one that stood in its source before the command, be it the slot
itself or the one that was copied. -/
theorem Stepped.getElem?_source (h : Stepped s command next) {origin : String}
    (horigin : s.source? command slot = some origin) : next.rules[slot]? = s.rules[origin]? := by
  cases h with
  | still hsource | keep hsource =>
    rw [hsource] at horigin
    rw [Option.some.inj horigin]
  | put hsource =>
    rw [hsource] at horigin
    split at horigin
    · cases horigin
    · -- another slot than the one that was written
      rename_i hne
      rw [← Option.some.inj horigin, Std.HashMap.getElem?_insert, if_neg]
      simpa using Ne.symm hne
  | copied hsource hrule =>
    rw [hsource] at horigin
    split at horigin
    · -- the copy itself has its source as the origin
      rename_i heq
      rw [← Option.some.inj horigin, hrule, heq, Std.HashMap.getElem?_insert_self]
    · rename_i hne
      rw [← Option.some.inj horigin, Std.HashMap.getElem?_insert, if_neg]
      simpa using Ne.symm hne

/-- A slot with an ancestor holds what the ancestor held at first. -/
theorem getElem?_ancestor {commands : List Command} {origin : String}
    (horigin : s.ancestor? commands slot = some origin) :
    (s.after commands).rules[slot]? = s.rules[origin]? := by
  induction commands generalizing s origin with
  | nil =>
    rw [← Option.some.inj horigin]
    rfl
  | cons command commands ih =>
    -- the slot after the first command, and from there the one before it
    obtain ⟨mid, hmid, hsource⟩ := Option.bind_eq_some_iff.mp horigin
    rw [after_cons, ih hmid, (stepped s command).getElem?_source hsource]

end Session

end KeyRules
