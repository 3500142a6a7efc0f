import KeyRules.Proofs.Extraction
import KeyRules.Proofs.Slots

/-!
# KeyRules — which slots share a tree

A tree is shared in two ways only. Two calls for one expression share it when the cache had the
expression right after the first of them and was not emptied before the second; and a copy of a
rule shares the tree of the rule. A rule that is built, updated or adopted takes a tree of its own,
which the cache never sees, so all that ever shares it are copies of this rule, and giving one
of them another expression leaves the others as they are.

* `Session.Recorded` — the trees in the slots and in the cache agree with a record.
* `Session.same_id_iff_of_calls` — when two calls share a tree.
* `Session.Owned` — a tree that only the rules of certain slots have.
* `Session.shares_iff_ancestor` — which slots share the tree of a rule that was made.
* `shared_trees` — all of this, for every sequence of commands.
-/

namespace KeyRules

/-- The tree that an answer hands out. -/
def Answer.tree? : Answer → Option Tree
  | .tree t => some t
  | .rule r => r.tree?
  | _ => none

namespace Command

/-- The commands that take one expression through the cache and hand out its tree. -/
inductive Calls (text : String) : Command → Prop where
  | cached (slot : String) : Calls text (.cached slot text)
  | fetch (slot : String) : Calls text (.fetch slot text)

/-- The commands that give the rule of a slot a tree of its own. -/
inductive Makes (slot : String) : Command → Prop where
  | build (text : String) : Makes slot (.build slot text)
  | update (text : String) : Makes slot (.update slot text)
  | adopt (source : Source) : Makes slot (.adopt slot source)

end Command

namespace Session

variable {s next : Session} {command : Command} {slot text : String} {tree : Tree} {rule : Rule}

open Engine (Gives)

/-! ## One number, one tree -/

/-- The tree stands in a slot, by itself or as the tree of a rule. -/
def HasTree (s : Session) (tree : Tree) : Prop :=
  (∃ (slot : String) (rule : Rule), s.rules[slot]? = some rule ∧ rule.tree? = some tree) ∨
    ∃ slot : String, s.trees[slot]? = some tree

/-- A tree that is in use after a rule was stored was in use before, or is that of the new rule. -/
theorem HasTree.of_insert_rule {engine : Engine} {written : String}
    (h : HasTree { s with engine, rules := s.rules.insert written rule } tree) :
    s.HasTree tree ∨ rule.tree? = some tree := by
  rcases h with ⟨y, found, hfound, htree⟩ | htree
  · rcases getElem?_insert_cases hfound with ⟨-, rfl⟩ | ⟨-, hold⟩
    · exact Or.inr htree
    · exact Or.inl (Or.inl ⟨y, found, hold, htree⟩)
  · exact Or.inl (Or.inr htree)

/-- A tree that is in use after a tree was stored was in use before, or is this one. -/
theorem HasTree.of_insert_tree {engine : Engine} {written : String} {kept : Tree}
    (h : HasTree { s with engine, trees := s.trees.insert written kept } tree) :
    s.HasTree tree ∨ kept = tree := by
  rcases h with htree | ⟨y, hfound⟩
  · exact Or.inl (Or.inl htree)
  · rcases getElem?_insert_cases hfound with ⟨-, rfl⟩ | ⟨-, hold⟩
    · exact Or.inr rfl
    · exact Or.inl (Or.inr ⟨y, hold⟩)

/-- The trees in the slots and in the cache agree with a record of the compilations. -/
def Recorded (s : Session) : Prop :=
  ∃ record, s.engine.Recorded s.HasTree record

/-- Every command keeps a record of what was compiled: a tree that comes into a slot is in it
already or is added to it. -/
theorem Stepped.recorded (h : Stepped s command next) (hs : s.Recorded) : next.Recorded := by
  cases h with
  | still _ hengine =>
    rcases hengine with ⟨texts, events, hworks⟩ | rfl
    · exact Engine.Recorded.works hs hworks
    · obtain ⟨record, hs⟩ := hs
      refine ⟨record, hs.shrink rfl (fun t tree htree => ?_) fun _ htree => Or.inl htree⟩
      simp at htree
  | put _ hgives =>
    refine Engine.Recorded.mono (Engine.Recorded.gives hs hgives) ?_
    intro tree htree
    exact htree.of_insert_rule
  | @copied model written rule _ hrule =>
    -- a copy has no tree that was not there before
    refine Engine.Recorded.mono hs ?_
    intro tree htree
    rcases htree.of_insert_rule with hold | hcopied
    · exact hold
    · exact Or.inl ⟨model, rule, hrule, hcopied⟩
  | keep _ hgives =>
    refine Engine.Recorded.mono (Engine.Recorded.gives hs hgives) ?_
    intro tree htree
    exact htree.of_insert_tree.imp_right fun heq => by rw [heq]

theorem Recorded.after (h : s.Recorded) (commands : List Command) :
    (s.after commands).Recorded := by
  induction commands generalizing s with
  | nil => exact h
  | cons command commands ih => exact ih ((stepped s command).recorded h)

theorem recorded_empty : Recorded {} := by
  refine ⟨[], Engine.recorded_of_empty rfl rfl ?_⟩
  rintro tree (⟨slot, rule, hrule, -⟩ | ⟨slot, htree⟩)
  · simp at hrule
  · simp at htree

/-- Two slots that share a tree hold the same tree. -/
theorem Recorded.eq_of_id {a b : Tree} (h : s.Recorded) (ha : s.HasTree a) (hb : s.HasTree b)
    (hid : a.id = b.id) : a = b := by
  obtain ⟨record, h⟩ := h
  obtain ⟨_, ha⟩ := h.held a ha
  obtain ⟨_, hb⟩ := h.held b hb
  exact (Engine.eq_of_recorded hid ha hb).2

/-! ## Calls -/

theorem after_append (s : Session) (commands more : List Command) :
    s.after (commands ++ more) = (s.after commands).after more := by
  induction commands generalizing s with
  | nil => rfl
  | cons command commands ih => exact ih _

/-- Commands never give a number back. -/
theorem grows_after (s : Session) (commands : List Command) :
    s.engine.Grows (s.after commands).engine :=
  invariant (P := fun engine => s.engine.Grows engine) (fun _ h => h.clear)
    (fun hworks h => h.trans hworks.grows) (.refl s.engine) commands

/-- A call does to the engine what fetching does, and hands out what is fetched. -/
theorem step_of_calls (s : Session) (hcalls : command.Calls text) :
    (s.step command).value.1.tree? = ((Engine.fetch text).run s.engine).value.1.toOption ∧
      (s.step command).value.2.engine = Engine.after (Engine.fetch text) s.engine := by
  cases hcalls with
  | cached slot => exact ⟨Engine.tree?_cached s.engine text, Engine.after_cached s.engine text⟩
  | fetch slot =>
    rw [value_fetch]
    cases ((Engine.fetch text).run s.engine).value.1 <;> exact ⟨rfl, rfl⟩

/-- A call that hands out a tree took the expression through the cache. -/
theorem fetched_of_calls (hcalls : command.Calls text)
    (htree : (s.step command).value.1.tree? = some tree) :
    ∃ events, Engine.Fetched s.engine text (.ok tree) (s.step command).value.2.engine events := by
  obtain ⟨hanswer, hengine⟩ := step_of_calls s hcalls
  rw [hanswer] at htree
  rw [hengine]
  have hfetched := Engine.fetched_fetch s.engine text
  -- only a call that succeeds answers with a tree
  cases hresult : ((Engine.fetch text).run s.engine).value.1 with
  | ok given =>
    rw [hresult] at hfetched htree
    obtain rfl := Option.some.inj htree
    exact ⟨_, hfetched⟩
  | error e =>
    rw [hresult] at htree
    cases htree

/-- Two calls share a tree when both ask for one expression, the cache had it right after the first
call, and it was not emptied in between. -/
theorem same_id_iff_of_calls {first second : Command} {text' : String} {a b : Tree}
    {between : List Command} (hs : s.Recorded) (hfirst : first.Calls text)
    (hsecond : second.Calls text') (ha : (s.step first).value.1.tree? = some a)
    (hb : (((s.step first).value.2.after between).step second).value.1.tree? = some b) :
    a.id = b.id ↔
      text = text' ∧ text ∈ (s.step first).value.2.engine.cache ∧ .clear ∉ between := by
  obtain ⟨record, hs⟩ := hs
  obtain ⟨_, hfetched⟩ := fetched_of_calls hfirst ha
  obtain ⟨_, hfetched'⟩ := fetched_of_calls hsecond hb
  generalize (s.step first).value.2 = mid at hfetched hfetched' ⊢
  generalize ((mid.after between).step second).value.2.engine = last at hfetched'
  have hreserved : mid.engine.Reserved text a := hfetched.reserved hs
  have hgrows := grows_after mid between
  constructor
  · intro hid
    obtain ⟨rfl, hcached⟩ := hfetched'.cached_of_id (hreserved.grows hgrows) hid
    -- an entry that was not there from the beginning would have a later number
    have hkept {t : Session} (hmid : mid.engine.Grows t.engine)
        (hafter : t.engine.Grows (mid.after between).engine) :
        t.engine.cache[text']? = some a := by
      have hlt := hreserved.id_lt
      have hle := hmid.issued_le
      rcases hafter.old_or_new text' a hcached with hold | hnew
      · exact hold
      · omega
    refine ⟨rfl, ?_, ?_⟩
    · have hfirst := hkept (.refl _) hgrows
      rw [Std.HashMap.mem_iff_isSome_getElem?, hfirst]
      rfl
    · intro hclear
      -- right after it was emptied the cache has no entry, not even this one
      obtain ⟨before, more, rfl⟩ := List.append_of_mem hclear
      have hgrows' := grows_after (mid.after (before ++ [.clear])) more
      rw [← after_append, List.append_assoc] at hgrows'
      have hempty := hkept (grows_after mid (before ++ [.clear])) hgrows'
      rw [after_append] at hempty
      have hcache : (((mid.after before).after [.clear]).engine.cache) = {} := rfl
      simp [hcache] at hempty
  · rintro ⟨rfl, hmem, hclear⟩
    have hworks := works_run mid hclear
    have hcached := hworks.getElem?_of_cached (hfetched.cached_of_mem hmem)
    -- the second call finds what the first one left
    cases hfetched' with
    | hit hcached' =>
      rw [hcached] at hcached'
      rw [Option.some.inj hcached']
    | refused hnew | kept hnew =>
      rw [hcached] at hnew
      cases hnew

/-! ## Copies -/

/-- Nothing has the tree with a number but the rules of certain slots. -/
structure Owned (s : Session) (id : Nat) (owner : String → Prop) : Prop where
  id_lt : id < s.engine.issued
  cached : ∀ (text : String) (tree : Tree), s.engine.cache[text]? = some tree → tree.id ≠ id
  trees : ∀ (slot : String) (tree : Tree), s.trees[slot]? = some tree → tree.id ≠ id
  rules : ∀ (slot : String) (rule : Rule) (tree : Tree), s.rules[slot]? = some rule →
    rule.tree? = some tree → tree.id = id → owner slot

/-- A tree that belongs to some slots alone is not handed out again. -/
theorem Owned.ne_of_gives {id : Nat} {owner : String → Prop} {engine : Engine}
    (h : s.Owned id owner) (hgives : Gives s.engine (some tree) engine) : tree.id ≠ id := by
  have hlt := h.id_lt
  rcases hgives.new_or_cached with hnew | ⟨text, hcached⟩
  · omega
  · exact h.cached text tree hcached

/-- After a command the tree belongs to the slots that were copied from its owners. -/
theorem Owned.step {id : Nat} {owner : String → Prop} (h : s.Owned id owner) (command : Command) :
    (s.step command).value.2.Owned id fun slot =>
      ∃ origin, s.source? command slot = some origin ∧ owner origin := by
  have hgrows : s.engine.Grows (s.step command).value.2.engine := grows_after s [command]
  have hstepped := stepped s command
  generalize (s.step command).value.2 = next at hgrows hstepped ⊢
  have hlt := h.id_lt
  have hle := hgrows.issued_le
  refine ⟨by omega, ?_, ?_, ?_⟩
  · -- what comes into the cache is new, so it has another number
    intro text tree htree
    rcases hgrows.old_or_new text tree htree with hold | hnew
    · exact h.cached text tree hold
    · omega
  · intro slot tree htree
    cases hstepped with
    | still | put | copied => exact h.trees slot tree htree
    | keep _ hgives =>
      rcases getElem?_insert_cases htree with ⟨-, rfl⟩ | ⟨-, hold⟩
      · exact h.ne_of_gives hgives
      · exact h.trees slot tree hold
  · intro slot rule tree hrule htree hid
    cases hstepped with
    | still hsource | keep hsource =>
      exact ⟨slot, hsource slot, h.rules slot rule tree hrule htree hid⟩
    | put hsource hgives =>
      -- the rule that was put has a tree that is new or was cached, never the owned one
      rcases getElem?_insert_cases hrule with ⟨-, rfl⟩ | ⟨hne, hold⟩
      · rw [htree] at hgives
        exact absurd hid (h.ne_of_gives hgives)
      · exact ⟨slot, by rw [hsource, if_neg hne], h.rules slot rule tree hold htree hid⟩
    | @copied model _ _ hsource hmodel =>
      rcases getElem?_insert_cases hrule with ⟨rfl, rfl⟩ | ⟨hne, hold⟩
      · exact ⟨model, by rw [hsource, if_pos rfl], h.rules model rule tree hmodel htree hid⟩
      · exact ⟨slot, by rw [hsource, if_neg hne], h.rules slot rule tree hold htree hid⟩

/-- So after any commands it belongs to the slots whose ancestor was an owner. -/
theorem Owned.after {id : Nat} {owner : String → Prop} (h : s.Owned id owner)
    (commands : List Command) : (s.after commands).Owned id fun slot =>
      ∃ origin, s.ancestor? commands slot = some origin ∧ owner origin := by
  induction commands generalizing s owner with
  | nil => exact ⟨h.id_lt, h.cached, h.trees, fun slot rule tree hrule htree hid =>
      ⟨slot, rfl, h.rules slot rule tree hrule htree hid⟩⟩
  | cons command commands ih =>
    have hrun := ih (h.step command)
    refine ⟨hrun.id_lt, hrun.cached, hrun.trees, ?_⟩
    intro slot rule tree hrule htree hid
    obtain ⟨mid, hmid, origin, hsource, howner⟩ := hrun.rules slot rule tree hrule htree hid
    exact ⟨origin, Option.bind_eq_some_iff.mpr ⟨mid, hmid, hsource⟩, howner⟩

/-- A command that gives a rule a tree of its own takes the next number for it. -/
theorem step_of_makes (hmakes : command.Makes slot)
    (htree : (s.step command).value.1.tree? = some tree) :
    tree.id = s.engine.issued ∧ ∃ rule : Rule, rule.tree? = some tree ∧
      (s.step command).value.2 =
        { s with engine := { s.engine with issued := s.engine.issued + 1 },
                 rules := s.rules.insert slot rule } := by
  have hbuild (text : String) (htree : ((Rule.build text).run s.engine).value.1.tree? = some tree) :
      tree.id = s.engine.issued ∧ Engine.after (Rule.build text) s.engine =
        { s.engine with issued := s.engine.issued + 1 } := by
    rcases Engine.build_cases s.engine text with ⟨hnone, -⟩ | ⟨c, hsome, hafter⟩
    · rw [hnone] at htree
      cases htree
    · rw [hsome] at htree
      rw [← Option.some.inj htree]
      exact ⟨rfl, hafter⟩
  cases hmakes with
  | build text =>
    obtain ⟨hid, hafter⟩ := hbuild text htree
    refine ⟨hid, _, htree, ?_⟩
    rw [← hafter]
    rfl
  | update text =>
    simp only [step] at htree ⊢
    cases hrule : s.rules[slot]? with
    | some _ =>
      rw [hrule] at htree
      obtain ⟨hid, hafter⟩ := hbuild text htree
      refine ⟨hid, _, htree, ?_⟩
      rw [← hafter]
      rfl
    | none =>
      -- where there is no rule, there is nothing to hand out
      rw [hrule] at htree
      cases htree
  | adopt source =>
    simp only [step] at htree ⊢
    cases hcondition : source.condition with
    | ok c =>
      rw [hcondition] at htree
      rw [← Option.some.inj htree]
      exact ⟨rfl, _, rfl, rfl⟩
    | error e =>
      rw [hcondition] at htree
      cases htree

/-- A tree that was just made belongs to its slot and to no other. -/
theorem Recorded.owned_of_makes (hs : s.Recorded) (hmakes : command.Makes slot)
    (htree : (s.step command).value.1.tree? = some tree) :
    (s.step command).value.2.Owned tree.id fun owner => owner = slot := by
  obtain ⟨record, hs⟩ := hs
  obtain ⟨hid, rule, hrule, hnext⟩ := step_of_makes hmakes htree
  -- every tree that was there before has an earlier number
  have hheld {other : Tree} (hother : s.HasTree other) : other.id ≠ tree.id := by
    have hlt := hs.id_lt (hs.held other hother)
    omega
  -- the command adds nothing to the slots but this rule, and nothing to the cache
  rw [hnext]
  refine ⟨?_, ?_, ?_, ?_⟩
  · rw [hid]
    exact Nat.lt_succ_self _
  · intro text other hother
    have hlt := hs.id_lt (hs.exists_of_cached hother)
    omega
  · exact fun y other hother => hheld (Or.inr ⟨y, hother⟩)
  · intro y rule' other hrule' hother hid'
    rcases getElem?_insert_cases hrule' with ⟨heq, -⟩ | ⟨-, hold⟩
    · exact heq
    · exact absurd hid' (hheld (Or.inl ⟨y, rule', hold, hother⟩))

/-- A rule with a tree of its own shares it with its copies and with nothing else. -/
theorem shares_iff_ancestor (hs : s.Recorded) (hmakes : command.Makes slot)
    (htree : (s.step command).value.1.tree? = some tree) (commands : List Command) :
    (∀ other : String, (∃ (rule : Rule) (shared : Tree),
        ((s.step command).value.2.after commands).rules[other]? = some rule ∧
          rule.tree? = some shared ∧ shared.id = tree.id) ↔
        (s.step command).value.2.ancestor? commands other = some slot) ∧
    ∀ (other : String) (shared : Tree),
      ((s.step command).value.2.after commands).trees[other]? = some shared →
        shared.id ≠ tree.id := by
  -- the new tree has one owner, and only copies of the owner have it later
  have howned := (hs.owned_of_makes hmakes htree).after commands
  refine ⟨fun other => ⟨?_, fun hancestor => ?_⟩, howned.trees⟩
  · rintro ⟨rule, shared, hrule, hshared, hid⟩
    obtain ⟨origin, hancestor, rfl⟩ := howned.rules other rule shared hrule hshared hid
    exact hancestor
  · -- the rule of a copy is the rule that was made, and so is its tree
    obtain ⟨-, rule, hrule, hnext⟩ := step_of_makes hmakes htree
    refine ⟨rule, tree, ?_, hrule, rfl⟩
    rw [getElem?_ancestor hancestor, hnext, Std.HashMap.getElem?_insert_self]

/-- Giving a rule another expression leaves all other slots as they are. -/
theorem getElem?_update {other : String} (hne : other ≠ slot) :
    (s.step (.update slot text)).value.2.rules[other]? = s.rules[other]? ∧
      (s.step (.update slot text)).value.2.trees = s.trees := by
  have hsource : s.source? (.update slot text) other = some other := by
    rw [source?, if_neg fun h => hne h.1]
  refine ⟨(stepped s _).getElem?_source hsource, ?_⟩
  simp only [step]
  cases s.rules[slot]? <;> rfl

end Session

/-- Two calls share a tree when both ask for one expression, the cache had it right after the first
call, and it was not emptied in between. Two slots that share a tree have equal conditions. A tree
that a rule was built, updated or adopted with is shared by the copies of this rule and by nothing
else. Updating a rule leaves every other slot as it is. -/
theorem shared_trees :
    (∀ (before between : List Command) (first second : Command) (text text' : String)
      (a b : Tree), first.Calls text → second.Calls text' →
      let s := Session.after {} before
      let mid := (s.step first).value.2
      (s.step first).value.1.tree? = some a →
      ((mid.after between).step second).value.1.tree? = some b →
      (a.id = b.id ↔ text = text' ∧ text ∈ mid.engine.cache ∧ .clear ∉ between)) ∧
    (∀ (commands : List Command) (a b : Tree),
      let s := Session.after {} commands
      s.HasTree a → s.HasTree b → a.id = b.id → a.condition = b.condition) ∧
    (∀ (before later : List Command) (make : Command) (slot : String) (tree : Tree),
      make.Makes slot →
      let s := Session.after {} before
      let made := (s.step make).value.2
      (s.step make).value.1.tree? = some tree →
      (∀ other : String, (∃ (rule : Rule) (shared : Tree),
          (made.after later).rules[other]? = some rule ∧ rule.tree? = some shared ∧
            shared.id = tree.id) ↔
          made.ancestor? later other = some slot) ∧
        ∀ (other : String) (shared : Tree),
          (made.after later).trees[other]? = some shared → shared.id ≠ tree.id) ∧
    ∀ (s : Session) (slot other text : String), other ≠ slot →
      let updated := (s.step (.update slot text)).value.2
      updated.rules[other]? = s.rules[other]? ∧ updated.trees = s.trees := by
  refine ⟨?_, ?_, ?_, ?_⟩
  · intro before between first second text text' a b hfirst hsecond s mid ha hb
    exact Session.same_id_iff_of_calls (Session.recorded_empty.after before) hfirst hsecond ha hb
  · intro commands a b s ha hb hid
    rw [(Session.recorded_empty.after commands).eq_of_id ha hb hid]
  · intro before later make slot tree hmakes s made htree
    exact Session.shares_iff_ancestor (Session.recorded_empty.after before) hmakes htree later
  · intro s slot other text hne updated
    exact Session.getElem?_update hne

open Expression in
/-- Of two rules with equal conditions one was made through the cache and shares its tree with a
later call; the other was built and shares its tree with a copy, which keeps it when the rule is
updated. -/
theorem shared_trees_of_equal_conditions :
    let a : Tree := ⟨0, .key "a"⟩
    let b : Tree := ⟨1, .key "a"⟩
    let s := Session.after {} [.cached "r" "a"]
    let made := (s.step (.build "q" "a")).value.2
    let later : List Command := [.clone "q" "p", .update "q" "b"]
    let Shares (slot : String) := ∃ (rule : Rule) (shared : Tree),
      (made.after later).rules[slot]? = some rule ∧ rule.tree? = some shared ∧ shared.id = b.id
    (made.step (.fetch "t" "a")).value.1.tree? = some a ∧ "a" ∈ s.engine.cache ∧
      (∀ tree, made.HasTree tree → tree.id = a.id → tree.condition = a.condition) ∧
      (s.step (.build "q" "a")).value.1.tree? = some b ∧ Shares "p" ∧ ¬ Shares "q" ∧
      (made.step (.update "q" "b")).value.2.rules["r"]? = made.rules["r"]? := by
  intro a b s made later Shares
  have htext : inParens (tokens "a") = inParens (Part.tokensAll [.word "a"]) := by decide
  have hparse : Condition.parse "a" = .ok (.key "a") := parse_eq_iff_verdict.mpr (.whole htext rfl)
  have hempty : ({} : Engine).cache["a"]? = none := by simp
  have hfetch : ((Engine.fetch "a").run {}).value =
      (.ok a, { cache := Std.HashMap.insert {} "a" a, issued := 1 }) :=
    congrArg Traced.value (Engine.run_fetch_kept hempty hparse (by simp [Engine.capacity]))
  have hfirst : (Session.step {} (.cached "r" "a")).value.1.tree? = some a := by
    rw [(Session.step_of_calls {} (.cached "r")).1, hfetch]
    rfl
  have hengine : s.engine = { cache := Std.HashMap.insert {} "a" a, issued := 1 } :=
    (Session.step_of_calls {} (.cached "r")).2.trans (congrArg Prod.snd hfetch)
  have hcached : s.engine.cache["a"]? = some a := by simp [hengine]
  have hsecond : (made.step (.fetch "t" "a")).value.1.tree? = some a := by
    have hkept : made.engine.cache["a"]? = some a :=
      (Session.works_step s (by simp : Command.build "q" "a" ≠ .clear)).getElem?_of_cached
        hcached
    rw [(Session.step_of_calls made (.fetch "t")).1, Engine.run_fetch_hit hkept]
    rfl
  have hbuilt : (s.step (.build "q" "a")).value.1.tree? = some b := by
    have htree : (s.step (.build "q" "a")).value.1.tree? =
        ((Engine.compile "a").run s.engine).value.1.toOption := Engine.tree?_ofResult _ "a" _
    rw [htree, Engine.run_compile_ok hparse, hengine]
    rfl
  -- the first rule is not touched when the second one is built
  have hrule : made.rules["r"]? = s.rules["r"]? :=
    (Session.stepped s (.build "q" "a")).getElem?_source rfl
  have hheld : made.HasTree a := by
    refine Or.inl ⟨"r", ((Rule.cached "a").run {}).value.1, ?_, hfirst⟩
    rw [hrule]
    exact Std.HashMap.getElem?_insert_self
  have hclone : (made.step (.clone "q" "p")).value.2.rules["q"]? = made.rules["q"]? :=
    (Session.stepped made (.clone "q" "p")).getElem?_source (by simp [Session.source?])
  have hq : "q" ∈ made.rules := Std.HashMap.mem_insert_self
  have hshares : ∀ slot, Shares slot ↔ made.ancestor? later slot = some "q" :=
    (shared_trees.2.2.1 [.cached "r" "a"] later (.build "q" "a") "q" b (.build "a") hbuilt).1
  have hq' : "q" ∈ (made.step (.clone "q" "p")).value.2.rules := by
    rw [Std.HashMap.mem_iff_isSome_getElem?, hclone, ← Std.HashMap.mem_iff_isSome_getElem?]
    exact hq
  refine ⟨hsecond, ?_, ?_, hbuilt, ?_, ?_, ?_⟩
  · exact ((shared_trees.1 [] [.build "q" "a"] _ _ "a" "a" a a (.cached "r") (.fetch "t") hfirst
      hsecond).mp rfl).2.1
  · intro tree htree hid
    exact shared_trees.2.1 [.cached "r" "a", .build "q" "a"] tree a htree hheld hid
  · refine (hshares "p").mpr ?_
    simp [later, Session.ancestor?, Session.source?, hq]
  · intro hq
    have hancestor := (hshares "q").mp hq
    simp [later, Session.ancestor?, Session.source?, hq'] at hancestor
  · exact (shared_trees.2.2.2 made "q" "r" "b" (by decide)).1

end KeyRules
