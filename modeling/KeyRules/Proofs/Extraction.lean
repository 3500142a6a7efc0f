import KeyRules.Proofs.Placeholders
import KeyRules.Proofs.Spelling
import KeyRules.Proofs.Verdict
import Mathlib.Data.List.Induction

/-!
# KeyRules — compiling group by group

Compiling a text replaces one group after another by a placeholder, the one that opens last first.
At any time the text falls into two pieces: a front that is as it was, and a back without opening
parentheses in which placeholders stand for groups of the original. The invariant `Collapsed` says
how such a back and the store go with the original, a step keeps it, and when the work is over it
yields the verdict on the original text.

* `Expands` — a text with placeholders and the text it came from.
* `Collapsed` — the invariant of the work.
* `Collapsed.close` — what one step does to it.
* `Work.Compiles` — the places whose groups are compiled on the way.
* `run_verdict` — the work ends with the verdict on the text.
* `compiles_inParens_iff` — the groups compiled are those behind which everything is in order.
* `parse_eq_iff_verdict` — compiling an expression gives the verdict on it, and nothing else.
* `parse_of_opener` — the outcome of a text with an unclosed parenthesis in front of its parts.
-/

namespace KeyRules.Expression

open KeyRules.Expression.Part (tokensAll)

/-! ## Steps -/

theorem cutFirst?_append {t : Token} {before after : List Token} (h : t ∉ before) :
    cutFirst? t (before ++ t :: after) = some (before, after) :=
  cutFirst?_eq_some_iff.mpr ⟨rfl, h⟩

theorem cutLast?_append {t : Token} {before after : List Token} (h : t ∉ after) :
    cutLast? t (before ++ t :: after) = some (before, after) :=
  cutLast?_eq_some_iff.mpr ⟨rfl, h⟩

namespace Work

variable {before items rest ts : List Token} {store next : Store} {w : Work} {c : Condition}
  {e : Error}

/-- The work is one step, and then the rest of the work. -/
theorem run_eq (w : Work) : w.run =
    match w.step with
    | .ok next => next.run
    | .error outcome => outcome := by
  rw [run]
  split <;> rename_i h <;> rw [h]

/-- Without an opening parenthesis the work is over at once. -/
theorem run_root (h : .opener ∉ ts) : run ⟨ts, store⟩ = root ⟨ts, store⟩ := by
  rw [run_eq, step, cutLast?_eq_none_iff.mpr h]

/-- An opening parenthesis that nothing closes ends the work. -/
theorem run_latest (hopener : .opener ∉ rest) (hcloser : .closer ∉ rest) :
    run ⟨before ++ .opener :: rest, store⟩ = latest ⟨before ++ .opener :: rest, store⟩ := by
  rw [run_eq, step]
  simp only [cutLast?_append hopener, cutFirst?_eq_none_iff.mpr hcloser]

/-- Between the last opening parenthesis and the next closing one stands the group of this step. -/
theorem step_group (hopener : .opener ∉ items ++ .closer :: rest) (hcloser : .closer ∉ items) :
    step ⟨before ++ .opener :: (items ++ .closer :: rest), store⟩ =
      match (compile items).run store with
      | .error e => .error (.error e)
      | .ok (c, next) => .ok ⟨before ++ .group next.size :: rest, (next.push c).2⟩ := by
  simp only [step, cutLast?_append hopener, cutFirst?_append hcloser]
  rfl

/-- A faulty group ends the work with its fault. -/
theorem run_group_error (hopener : .opener ∉ items ++ .closer :: rest) (hcloser : .closer ∉ items)
    (h : (compile items).run store = .error e) :
    run ⟨before ++ .opener :: (items ++ .closer :: rest), store⟩ = .error e := by
  rw [run_eq, step_group hopener hcloser, h]

/-- A group without a fault gives way to a placeholder, and the work goes on. -/
theorem run_group_ok (hopener : .opener ∉ items ++ .closer :: rest) (hcloser : .closer ∉ items)
    (h : (compile items).run store = .ok (c, next)) :
    run ⟨before ++ .opener :: (items ++ .closer :: rest), store⟩ =
      run ⟨before ++ .group next.size :: rest, (next.push c).2⟩ := by
  rw [run_eq, step_group hopener hcloser, h]

/-- Some step of the work compiles the group that opens at a place. The text in front of that place
is still the original one, so the place is the same in the original. -/
inductive Compiles : Work → Nat → Prop where
  | now {w : Work} {before after items rest : List Token}
      (hlast : cutLast? .opener w.tokens = some (before, after))
      (hfirst : cutFirst? .closer after = some (items, rest)) : Compiles w before.length
  | later {w next : Work} {i : Nat} (hstep : w.step = .ok next) (h : Compiles next i) :
      Compiles w i

theorem not_compiles_root (h : .opener ∉ ts) (i : Nat) : ¬ Compiles ⟨ts, store⟩ i := by
  have hlast := cutLast?_eq_none_iff.mpr h
  rintro (⟨hlast', -⟩ | ⟨hstep, -⟩)
  · simp [hlast] at hlast'
  · simp [step, hlast] at hstep

theorem not_compiles_latest (hopener : .opener ∉ rest) (hcloser : .closer ∉ rest) (i : Nat) :
    ¬ Compiles ⟨before ++ .opener :: rest, store⟩ i := by
  have hlast := @cutLast?_append .opener before rest hopener
  have hfirst := cutFirst?_eq_none_iff.mpr hcloser
  rintro (⟨hlast', hfirst'⟩ | ⟨hstep, -⟩)
  · simp only [hlast, Option.some.injEq, Prod.mk.injEq] at hlast'
    simp [← hlast'.2, hfirst] at hfirst'
  · simp [step, hlast, hfirst] at hstep

/-- The groups that are compiled are that of this step and those that come after it. -/
theorem compiles_group_iff (hopener : .opener ∉ items ++ .closer :: rest)
    (hcloser : .closer ∉ items) {i : Nat} :
    Compiles ⟨before ++ .opener :: (items ++ .closer :: rest), store⟩ i ↔ i = before.length ∨
      ∃ c next, (compile items).run store = .ok (c, next) ∧
        Compiles ⟨before ++ .group next.size :: rest, (next.push c).2⟩ i := by
  have hlast := @cutLast?_append .opener before (items ++ .closer :: rest) hopener
  have hfirst := @cutFirst?_append .closer items rest hcloser
  have hstep := @step_group before items rest store hopener hcloser
  constructor
  · -- the cut is at the same place, and the step is the one that compiles these items
    rintro (⟨hlast', -⟩ | ⟨hstep', h⟩)
    · simp only [hlast, Option.some.injEq, Prod.mk.injEq] at hlast'
      exact Or.inl (congrArg List.length hlast'.1.symm)
    · rw [hstep] at hstep'
      split at hstep'
      · cases hstep'
      · rename_i c next hrun
        cases hstep'
        exact Or.inr ⟨c, next, hrun, h⟩
  · rintro (rfl | ⟨c, next, hrun, h⟩)
    · exact .now hlast hfirst
    · refine .later ?_ h
      rw [hstep, hrun]

end Work

/-! ## Texts with placeholders -/

/-- A text with placeholders comes from another one by putting whole groups back. -/
inductive Expands (store : Store) : List Token → List Token → Prop where
  | nil : Expands store [] []
  | closer {mid post : List Token} (h : Expands store mid post) :
      Expands store (.closer :: mid) (.closer :: post)
  | part {t : Token} {p : Part} {mid post : List Token} (hp : Stands store t p)
      (h : Expands store mid post) : Expands store (t :: mid) (p.tokens ++ post)

variable {store next : Store} {mid post items rest : List Token} {c : Condition} {ps : List Part}

/-- No parenthesis is open in what was collapsed. -/
theorem Expands.opener_not_mem (h : Expands store mid post) : .opener ∉ mid := by
  induction h with
  | nil => simp
  | closer _ ih => simpa using ih
  | part hp _ ih => cases hp <;> simpa using ih

/-- What a text stands for depends only on the places of the store that it names. -/
theorem Expands.of_agrees (h : Expands store mid post)
    (hat : ∀ k ∈ indices mid, next.at? k = store.at? k) : Expands next mid post := by
  induction h with
  | nil => exact .nil
  | closer _ ih => exact .closer (ih fun k hk => hat k (by simpa using hk))
  | part hp _ ih =>
    obtain ⟨hhead, htail⟩ := forall_mem_indices_cons.mp hat
    exact .part (hp.of_agrees hhead) (ih htail)

/-- Without closing parentheses the text is a list of parts: each token is a word or stands for a
group that is done. -/
theorem Expands.parts (h : Expands store mid post) (hcloser : .closer ∉ mid) :
    ∃ ps, List.Forall₂ (Stands store) mid ps ∧ post = tokensAll ps := by
  induction h with
  | nil => exact ⟨[], .nil, rfl⟩
  | closer _ _ => simp at hcloser
  | @part t p _ _ hp _ ih =>
    obtain ⟨ps, hps, rfl⟩ := ih fun hmem => hcloser (List.mem_cons_of_mem _ hmem)
    exact ⟨p :: ps, .cons hp hps, rfl⟩

/-- The first closing parenthesis is the same in both texts, since placeholders stand for whole
groups. So the slice that is compiled stands for the items of one group. -/
theorem Expands.split (h : Expands store (items ++ .closer :: rest) post)
    (hcloser : .closer ∉ items) :
    ∃ ps after, List.Forall₂ (Stands store) items ps ∧ post = tokensAll ps ++ .closer :: after ∧
      Expands store rest after := by
  induction items generalizing post with
  | nil =>
    -- the parenthesis itself stands for no part
    cases h with
    | closer h => exact ⟨[], _, .nil, rfl, h⟩
    | part hp => cases hp
  | cons t items ih =>
    cases h with
    | closer => simp at hcloser
    | @part _ p _ _ hp h =>
      obtain ⟨ps, after, hps, rfl, hrest⟩ :=
        ih h fun hmem => hcloser (List.mem_cons_of_mem _ hmem)
      exact ⟨p :: ps, after, .cons hp hps, by simp [tokensAll], hrest⟩

/-- A placeholder names a place that was filled. -/
theorem Expands.lt_size (h : Expands store mid post) : ∀ i ∈ indices mid, i < store.size := by
  induction h with
  | nil => simp
  | closer _ ih => simpa using ih
  | part hp _ ih =>
    cases hp with
    | word => simpa using ih
    | group hat => simpa using ⟨Store.lt_size_of_at? hat, ih⟩

/-! ## The invariant -/

/-- The back of a text without opening parentheses, the store that goes with it, and the back of
the original. -/
structure Collapsed (store : Store) (mid post : List Token) : Prop where
  expands : Expands store mid post
  /-- A group that opens further left was done later. -/
  falling : (indices mid).Pairwise (· > ·)
  /-- The group that was done last is still in the text. -/
  newest : ∀ k, store.size = k + 1 → k ∈ indices mid
  sound : ∀ j, Sound post j

/-- A word in front of the back is passed over: it stands for itself, and nothing is compiled
before the next parenthesis. -/
theorem Collapsed.word (h : Collapsed store mid post) (text : String) :
    Collapsed store (.word text :: mid) (.word text :: post) where
  expands := .part (.word text) h.expands
  falling := h.falling
  newest := h.newest
  sound j := by
    cases j with
    | zero => exact sound_of_ne_opener (by simp)
    | succ j => exact sound_cons.mpr (h.sound j)

/-- A closing parenthesis in front of the back waits for one that opens. Reading goes from the
right, so its partner has not been met yet. -/
theorem Collapsed.closer (h : Collapsed store mid post) :
    Collapsed store (.closer :: mid) (.closer :: post) where
  expands := .closer h.expands
  falling := h.falling
  newest := h.newest
  sound j := by
    cases j with
    | zero => exact sound_of_ne_opener (by simp)
    | succ j => exact sound_cons.mpr (h.sound j)

/-- An opening parenthesis in front of the back closes at the first closing one of the back. Its
group is faulty, or it becomes a placeholder. -/
theorem Collapsed.close (h : Collapsed store (items ++ .closer :: rest) post)
    (hcloser : .closer ∉ items) :
    ∃ ps, GroupAt (.opener :: post) 0 ps ∧
      match fault ps with
      | some e => (compile items).run store = .error e
      | none => ∃ c next, (compile items).run store = .ok (c, next) ∧
          Collapsed (next.push c).2 (.group next.size :: rest) (.opener :: post) := by
  obtain ⟨ps, after, hitems, rfl, hrest⟩ := h.expands.split hcloser
  refine ⟨ps, groupAt_zero ps after, ?_⟩
  have hfalling : (indices items ++ indices rest).Pairwise (· > ·) := by
    simpa [indices_append] using h.falling
  obtain ⟨hin, hout, hacross⟩ := List.pairwise_append.mp hfalling
  -- no placeholder is used twice in the group, so taking one condition out keeps the others
  have hnodup : (indices items).Nodup := hin.imp Nat.ne_of_gt
  have hcompile := compile_of_stands hitems hnodup
  cases hfault : fault ps with
  | some e => simpa [hfault] using hcompile
  | none =>
    rw [hfault] at hcompile
    obtain ⟨c, next, hrun, hc, hemptied⟩ := hcompile
    have hlt : ∀ k ∈ indices rest, k < store.size := hrest.lt_size
    -- the conditions behind the group are still there
    have hkept : ∀ k ∈ indices rest, (next.push c).2.at? k = store.at? k := by
      intro k hk
      have hne : k ≠ next.size := by
        have := hlt k hk
        have := hemptied.size
        omega
      rw [Store.at?_push, if_neg hne]
      exact hemptied.at?_of_not_mem fun hmem => absurd (hacross k hmem k hk) (Nat.lt_irrefl k)
    have hnew : (next.push c).2.at? next.size = some c := by
      rw [Store.at?_push, if_pos rfl]
    refine ⟨c, next, hrun, ?_, ?_, ?_, ?_⟩
    · have hgroup := Expands.part (.group hnew hc) (hrest.of_agrees hkept)
      simpa [Part.tokens, inParens] using hgroup
    · rw [indices_group, List.pairwise_cons]
      refine ⟨fun k hk => ?_, hout⟩
      rw [hemptied.size]
      exact hlt k hk
    · intro k hk
      rw [Store.size_push] at hk
      obtain rfl : next.size = k := by omega
      simp
    · intro j
      cases j with
      | zero => exact sound_of_groupAt (groupAt_zero ps after) hfault
      | succ j => exact sound_cons.mpr (h.sound j)

/-! ## The end of the work -/

/-- Only words stand in front of the first placeholder and of the part it stands for. -/
theorem first_placeholder (h : List.Forall₂ (Stands store) mid ps)
    (hcloser : .closer ∈ tokensAll ps) :
    ∃ (ws : List String) (i : Nat) (qs after : List Part) (c : Condition),
      ps = ws.map .word ++ .group qs :: after ∧ (indices mid).head? = some i ∧
        store.at? i = some c ∧ groupCondition? qs = some c := by
  induction h with
  | nil => simp [tokensAll] at hcloser
  | @cons t p mid ps hp _ ih =>
    cases hp with
    | word text =>
      have hrest : .closer ∈ tokensAll ps := by
        simpa [tokensAll, Part.tokens] using hcloser
      obtain ⟨ws, i, qs, after, c, rfl, hhead, hat, hc⟩ := ih hrest
      exact ⟨text :: ws, i, qs, after, c, rfl, hhead, hat, hc⟩
    | @group i qs c hat hc => exact ⟨[], i, qs, ps, c, rfl, rfl, hat, hc⟩

theorem latest_eq {ts : List Token} {k : Nat} (hsize : store.size = k + 1)
    (hat : store.at? k = some c) : Work.latest ⟨ts, store⟩ = .ok c := by
  obtain ⟨next, htake, -⟩ := Store.take_of_at? hat
  simp [Work.latest, hsize, htake, Except.map]

theorem root_eq {i : Nat} (hat : store.at? i = some c) :
    Work.root ⟨[.group i], store⟩ = .ok c := by
  obtain ⟨next, htake, -⟩ := Store.take_of_at? hat
  simp [Work.root, htake, Except.map]

/-- At an unclosed parenthesis the outcome is the group that opens first after it. -/
theorem Collapsed.latest (h : Collapsed store mid post) (hmid : .closer ∉ mid)
    (hpost : .closer ∈ post) (pre : List Token) (ts : List Token) :
    Verdict (pre ++ .opener :: post) (Work.latest ⟨ts, store⟩) := by
  obtain ⟨ps, hps, rfl⟩ := h.expands.parts hmid
  obtain ⟨ws, i, qs, after, c, rfl, hhead, hat, hc⟩ := first_placeholder hps hpost
  have hi : i ∈ indices mid := List.mem_of_mem_head? hhead
  have hlt : i < store.size := h.expands.lt_size i hi
  obtain ⟨k, hk⟩ : ∃ k, store.size = k + 1 := ⟨store.size - 1, by omega⟩
  -- the first placeholder has the largest index, so it was made last
  obtain rfl : k = i := by
    have hkmem := h.newest k hk
    obtain ⟨is, his⟩ : ∃ is, indices mid = i :: is := by
      cases hind : indices mid with
      | nil => simp [hind] at hi
      | cons i' is =>
        rw [hind] at hhead
        exact ⟨is, by rw [Option.some.inj hhead]⟩
    have hfall := h.falling
    rw [his] at hkmem hfall
    rcases List.mem_cons.mp hkmem with heq | hmem
    · exact heq
    · have := (List.pairwise_cons.mp hfall).1 k hmem
      omega
  rw [latest_eq hk hat]
  exact verdict_of_unclosed pre ws qs after h.sound hc

theorem Expands.eq_nil (h : Expands store mid []) : mid = [] := by
  generalize hpost : [] = post at h
  cases h with
  | nil => rfl
  | closer => cases hpost
  | @part _ p _ _ hp =>
    cases p <;> simp [Part.tokens, inParens] at hpost

/-- When no opening parenthesis is left, the text must have become one placeholder. Anything else
means that a closing parenthesis was never reached. -/
theorem Collapsed.root (h : Collapsed store mid post) (hpost : ∃ ts, post = inParens ts) :
    Verdict post (Work.root ⟨mid, store⟩) := by
  have hexpands := h.expands
  by_cases hsingle : ∃ i, mid = [.group i]
  · obtain ⟨i, rfl⟩ := hsingle
    cases hexpands with
    | @part _ _ _ post hp hrest =>
      cases hp with
      | @group _ ps c hat hc =>
        cases hrest
        rw [root_eq hat]
        exact .whole (List.append_nil _) hc
  · have hroot : Work.root ⟨mid, store⟩ = .error .unbalanced := by
      unfold Work.root
      split
      · rename_i i hmid
        exact absurd ⟨i, hmid⟩ hsingle
      · rfl
    rw [hroot]
    refine .scattered h.sound fun ps hps => hsingle ?_
    rw [hps, inParens_eq_tokens] at hexpands
    -- one token stands for the whole group, since a group is read in one way only
    generalize hgroup : (Part.group ps).tokens = whole at hexpands
    cases hexpands with
    | nil => simp [Part.tokens, inParens] at hgroup
    | closer => simp [Part.tokens, inParens] at hgroup
    | @part t p _ after hp hrest =>
      have happend : (Part.group ps).tokens ++ [] = p.tokens ++ after := by simpa using hgroup
      obtain ⟨rfl, rfl⟩ := Part.tokens_append_inj _ _ happend
      obtain rfl := hrest.eq_nil
      cases hp with
      | @group i => exact ⟨i, rfl⟩

/-- The work ends with the verdict on the text. -/
theorem run_verdict (pre : List Token) (hplain : ∀ k, .group k ∉ pre)
    (h : Collapsed store mid post) (hcloser : .closer ∈ post)
    (hstart : ∃ ts, pre ++ post = inParens ts) :
    Verdict (pre ++ post) (Work.run ⟨pre ++ mid, store⟩) := by
  -- from the last token of the front to the first: every token but an opening parenthesis just
  -- moves to the back, and there a step is taken
  induction pre using List.reverseRecOn generalizing mid post store with
  | nil =>
    rw [List.nil_append, List.nil_append, Work.run_root h.expands.opener_not_mem]
    exact h.root hstart
  | append_singleton pre t ih =>
    have hpre : ∀ k, Token.group k ∉ pre := fun k hk => hplain k (by simp [hk])
    rw [List.append_assoc, List.append_assoc, List.singleton_append, List.singleton_append]
    rw [List.append_assoc, List.singleton_append] at hstart
    cases t with
    | word text => exact ih hpre (h.word text) (by simp [hcloser]) hstart
    | group k => exact absurd (by simp) (hplain k)
    | closer => exact ih hpre h.closer (by simp) hstart
    | opener =>
      have hopener := h.expands.opener_not_mem
      by_cases hmid : .closer ∈ mid
      · obtain ⟨items, rest, rfl, hitems⟩ := List.eq_append_cons_of_mem hmid
        obtain ⟨ps, hgroup, hdone⟩ := h.close hitems
        cases hfault : fault ps with
        | some e =>
          rw [hfault] at hdone
          rw [Work.run_group_error hopener hitems hdone]
          have hgroup' : GroupAt (pre ++ .opener :: post) (pre.length + 0) ps :=
            groupAt_append.mpr hgroup
          exact .faulty hgroup' hfault fun j hj => sound_behind h.sound hj
        | none =>
          rw [hfault] at hdone
          obtain ⟨c, next, hrun, hnext⟩ := hdone
          rw [Work.run_group_ok hopener hitems hrun]
          exact ih hpre hnext (by simp [hcloser]) hstart
      · rw [Work.run_latest hopener hmid]
        exact h.latest hmid hcloser pre _

/-- The work compiles the groups behind which everything is in order. -/
theorem compiles_iff (pre : List Token) (hplain : ∀ k, .group k ∉ pre)
    (h : Collapsed store mid post) {i : Nat} :
    Work.Compiles ⟨pre ++ mid, store⟩ i ↔ i < pre.length ∧ Reached (pre ++ post) i := by
  -- the same walk over the front; a place is compiled when the walk gets there
  induction pre using List.reverseRecOn generalizing mid post store with
  | nil => simp [Work.not_compiles_root h.expands.opener_not_mem]
  | append_singleton pre t ih =>
    have hpre : ∀ k, Token.group k ∉ pre := fun k hk => hplain k (by simp [hk])
    rw [List.append_assoc, List.append_assoc, List.singleton_append, List.singleton_append,
      List.length_append, List.length_singleton]
    -- no group opens at a token of another kind
    have hother (hne : t ≠ .opener) : i < pre.length ∧ Reached (pre ++ t :: post) i ↔
        i < pre.length + 1 ∧ Reached (pre ++ t :: post) i := by
      refine ⟨fun ⟨hi, hr⟩ => ⟨by omega, hr⟩, fun ⟨hi, hr⟩ => ⟨?_, hr⟩⟩
      rcases Nat.lt_succ_iff_lt_or_eq.mp hi with hlt | rfl
      · exact hlt
      · obtain ⟨ps, hgroup⟩ := hr.group
        have hopener := hgroup.opener
        rw [List.getElem?_append_right (Nat.le_refl _), Nat.sub_self] at hopener
        exact absurd (Option.some.inj hopener) hne
    cases t with
    | word text => rw [ih hpre (h.word text), hother (by simp)]
    | group k => exact absurd (by simp) (hplain k)
    | closer => rw [ih hpre h.closer, hother (by simp)]
    | opener =>
      have hopener := h.expands.opener_not_mem
      -- a place in front of this parenthesis is reached only if this one is in order
      have hbefore (hi : i < pre.length + 1) (hr : Reached (pre ++ .opener :: post) i)
          (hbad : ¬ Sound (pre ++ .opener :: post) pre.length) : i = pre.length := by
        rcases Nat.lt_succ_iff_lt_or_eq.mp hi with hlt | heq
        · exact absurd (hr.sound _ hlt) hbad
        · exact heq
      by_cases hmid : .closer ∈ mid
      · obtain ⟨items, rest, rfl, hitems⟩ := List.eq_append_cons_of_mem hmid
        obtain ⟨ps, hgroup, hdone⟩ := h.close hitems
        have hhere : GroupAt (pre ++ .opener :: post) (pre.length + 0) ps :=
          groupAt_append.mpr hgroup
        have hreached : Reached (pre ++ .opener :: post) pre.length :=
          ⟨⟨ps, hhere⟩, fun j hj => sound_behind h.sound hj⟩
        rw [Work.compiles_group_iff hopener hitems]
        cases hfault : fault ps with
        | some e =>
          rw [hfault] at hdone
          constructor
          · rintro (rfl | ⟨c, next, hrun, -⟩)
            · exact ⟨by omega, hreached⟩
            · simp [hdone] at hrun
          · exact fun ⟨hi, hr⟩ => Or.inl (hbefore hi hr (hhere.not_sound hfault))
        | none =>
          rw [hfault] at hdone
          obtain ⟨c, next, hrun, hnext⟩ := hdone
          constructor
          · rintro (rfl | ⟨c', next', hrun', hlater⟩)
            · exact ⟨by omega, hreached⟩
            · cases hrun.symm.trans hrun'
              obtain ⟨hi, hr⟩ := (ih hpre hnext).mp hlater
              exact ⟨by omega, hr⟩
          · rintro ⟨hi, hr⟩
            rcases Nat.lt_succ_iff_lt_or_eq.mp hi with hlt | heq
            · exact Or.inr ⟨c, next, hrun, (ih hpre hnext).mpr ⟨hlt, hr⟩⟩
            · exact Or.inl heq
      · obtain ⟨ps, -, rfl⟩ := h.expands.parts hmid
        have hopen := unclosed_of_split pre ps
        refine iff_of_false (Work.not_compiles_latest hopener hmid i) fun ⟨hi, hr⟩ => ?_
        obtain rfl := hbefore hi hr hopen.not_sound
        obtain ⟨qs, hgroup⟩ := hr.group
        exact hopen.2 qs hgroup

/-- At first the back is no more than the parenthesis at the end of the text. -/
theorem collapsed_closer : Collapsed {} [.closer] [.closer] where
  expands := .closer .nil
  falling := by simp
  newest k hk := by simp [Store.size] at hk
  sound j := sound_of_ne_opener (by cases j <;> simp)

/-- The verdict of the grammar is what the work on the tokens gives. -/
theorem verdict_parseTokens {ts : List Token} (hplain : ∀ k, .group k ∉ ts) :
    Verdict (inParens ts) (parseTokens ts) :=
  run_verdict (.opener :: ts) (by simpa using hplain) collapsed_closer (by simp) ⟨ts, rfl⟩

/-- Compiling a text compiles the groups behind which everything is in order. -/
theorem compiles_inParens_iff {ts : List Token} (hplain : ∀ k, .group k ∉ ts) {i : Nat} :
    Work.Compiles { tokens := inParens ts } i ↔ Reached (inParens ts) i := by
  have hiff := compiles_iff (.opener :: ts) (by simpa using hplain) collapsed_closer (i := i)
  refine hiff.trans (and_iff_right_of_imp fun hr => ?_)
  -- no group opens at the last parenthesis or behind it
  obtain ⟨ps, hgroup⟩ := hr.group
  have hopener : ((.opener :: ts) ++ [.closer])[i]? = some Token.opener := hgroup.opener
  exact (List.getElem?_eq_some_iff.mp (opener_of_concat hopener)).1

/-- Compiling an expression gives the verdict on its text in parentheses, and nothing else. -/
theorem parse_eq_iff_verdict {text : String} {r : Outcome} :
    Condition.parse text = r ↔ Verdict (inParens (tokens text)) r := by
  have hverdict : Verdict (inParens (tokens text)) (Condition.parse text) :=
    verdict_parseTokens (group_not_mem_tokens text)
  constructor
  · rintro rfl
    exact hverdict
  · exact hverdict.unique

/-- A text with an unclosed parenthesis in front of parts in order compiles to the condition of the
first group among them. -/
theorem parse_of_opener {text : String} {pre : List Token} {ws : List String} {qs after : List Part}
    {c : Condition}
    (htext : inParens (tokens text) =
      pre ++ .opener :: tokensAll (ws.map .word ++ .group qs :: after))
    (hgroups : ∀ ps ∈ Part.groupsAll (ws.map .word ++ .group qs :: after), fault ps = none)
    (hc : groupCondition? qs = some c) : Condition.parse text = .ok c := by
  rw [parse_eq_iff_verdict, htext]
  exact verdict_of_unclosed pre ws qs after (sound_tokensAll hgroups) hc

end KeyRules.Expression
