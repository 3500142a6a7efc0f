import KeyRules.Proofs.Faults
import Mathlib.Data.List.Nodup

/-!
# KeyRules — where finished groups go

The condition of a finished group waits in the store until the group around it is finished, and is
then moved. At any time of the work the placeholders in the text are different from each other, and
each stands for a condition that waits. A condition that no placeholder stands for was moved into
one group that was finished later, and into no other one. So nothing is ever asked of the store that
is not there, in whatever way the parentheses of a text are out of balance.

* `Work.Slice`, `Work.Runs` — the group of the next step, and the work after a number of steps.
* `Placed`, `Work.Moves`, `MovedInto` — how a condition becomes part of another one.
* `compile_of_waiting` — compiling items whose placeholders stand for what waits.
* `Work.Tidy`, `Work.Finishes` — the invariant of the work, and what a step does.
* `MovedInto.unique`, `Work.Runs.exists_movedInto` — moved at most once, and at least once.
* `finished_groups_moved_once` — all of this for the compiling of any text.
-/

namespace KeyRules.Expression

/-! ## The work, step by step -/

namespace Work

/-- The work on a text before the first step. -/
def start (text : String) : Work :=
  { tokens := inParens (Expression.tokens text) }

/-- The work after a number of steps. -/
inductive Runs (w : Work) : Nat → Work → Prop where
  | refl : Runs w 0 w
  | step {n : Nat} {mid next : Work} (h : Runs w n mid) (hstep : mid.step = .ok next) :
      Runs w (n + 1) next

/-- The items that the next step compiles as a group, with what stands in front of the group and
behind it. -/
structure Slice (w : Work) (before items rest : List Token) : Prop where
  last : cutLast? .opener w.tokens = some (before, items ++ .closer :: rest)
  first : cutFirst? .closer (items ++ .closer :: rest) = some (items, rest)

end Work

/-- A condition stands in a new one where its placeholder stood among the items: it is the new
condition when there is no other item, and an operand of it otherwise. -/
inductive Placed (k : Nat) (c : Condition) : List Token → Condition → Prop where
  | whole : Placed k c [.group k] c
  | operand {items : List Token} {op : Operator} {operands : List Condition} {i : Nat}
      (hitem : items[2 * i]? = some (.group k)) (hoperand : operands[i]? = some c) :
      Placed k c items (.group op operands)

/-- A step moves a condition of the store into the one it puts there. -/
structure Work.Moves (w : Work) (k : Nat) (next : Work) : Prop where
  step : w.step = .ok next
  placed : ∃ before items rest c d, w.Slice before items rest ∧ w.store.at? k = some c ∧
    next.store.at? w.store.size = some d ∧ Placed k c items d
  taken : next.store.at? k = none

/-- While a text is compiled, the condition of one finished group is moved into that of another one,
by the step that finishes the latter. -/
def MovedInto (text : String) (k j : Nat) : Prop :=
  ∃ w next, (Work.start text).Runs j w ∧ w.Moves k next

/-! ## Compiling what waits -/

variable {store : Store} {items rest before : List Token} {t : Token} {ts : List Token}
  {c : Condition} {cs : List Condition} {k : Nat}

/-- What can be an item of a group: a word or a placeholder. -/
def Token.IsItem (t : Token) : Prop :=
  t ≠ .opener ∧ t ≠ .closer

/-- The placeholders in a text are different, and each stands for a condition that waits. -/
structure Waiting (store : Store) (ts : List Token) : Prop where
  distinct : (indices ts).Nodup
  waiting : ∀ k ∈ indices ts, ∃ c, store.at? k = some c

theorem mem_indices_iff : k ∈ indices ts ↔ .group k ∈ ts := by
  rw [indices, List.mem_filterMap]
  constructor
  · rintro ⟨t, ht, hk⟩
    cases t with
    | group i =>
      obtain rfl := Option.some.inj hk
      exact ht
    | word | opener | closer => cases hk
  · exact fun ht => ⟨_, ht, rfl⟩

/-- What waits for the placeholders of a text waits for those of a part of it. -/
theorem Waiting.sublist {us : List Token} (h : Waiting store us) (hsub : ts.Sublist us) :
    Waiting store ts where
  distinct := h.distinct.sublist (indices_sublist hsub)
  waiting k hk := h.waiting k ((indices_sublist hsub).subset hk)

/-- Each item has a condition when what the placeholders stand for waits. -/
theorem Waiting.exists_values (hitems : ∀ t ∈ ts, t.IsItem) (h : Waiting store ts) :
    ∃ cs, List.Forall₂ (fun t c => t.value? store = some c) ts cs := by
  induction ts with
  | nil => exact ⟨[], .nil⟩
  | cons t ts ih =>
    rw [List.forall_mem_cons] at hitems
    obtain ⟨cs, hcs⟩ := ih hitems.2 (h.sublist (List.sublist_cons_self t ts))
    cases t with
    | word text => exact ⟨_, .cons rfl hcs⟩
    | group k =>
      obtain ⟨c, hc⟩ := h.waiting k (by simp)
      exact ⟨_, .cons hc hcs⟩
    | opener => exact absurd rfl hitems.1.1
    | closer => exact absurd rfl hitems.1.2

/-- The operand at a place is what the token at this place stands for. -/
theorem getElem?_of_values (h : List.Forall₂ (fun t c => t.value? store = some c) ts cs) {i : Nat}
    (hi : ts[i]? = some (.group k)) : cs[i]? = store.at? k := by
  induction h generalizing i with
  | nil => cases hi
  | cons hc _ ih =>
    cases i with
    | zero =>
      obtain rfl := Option.some.inj hi
      exact hc.symm
    | succ i => exact ih hi

/-- An error that the items of a group cause themselves: no parenthesis is among them, and what they
stand for was there. -/
def OfItems (e : Error) : Prop :=
  e ≠ .unbalanced ∧ ∀ k, e ≠ .missingGroup k

/-- Joiners that disagree, or are no operator, are a fault of the items. -/
theorem ofItems_of_joinedBy {joiner : Token} {others : List Token} {e : Error}
    (h : joinedBy joiner others = .error e) : OfItems e := by
  unfold joinedBy at h
  split at h
  · obtain rfl := Except.error.inj h
    exact ⟨nofun, nofun⟩
  · split at h
    · cases h
    · obtain rfl := Except.error.inj h
      exact ⟨nofun, nofun⟩

/-- Where the joiners are no placeholders, the placeholders of a group are operands. -/
theorem exists_operand_place {op : Operator} (hjoiners : ∀ t ∈ odds items, t = .word op.symbol)
    (hk : k ∈ indices items) :
    ∃ i : Nat, items[2 * i]? = some (.group k) ∧ (evens items)[i]? = some (.group k) := by
  obtain ⟨n, hn⟩ := List.mem_iff_getElem?.mp (mem_indices_iff.mp hk)
  obtain ⟨i, rfl | rfl⟩ : ∃ i, n = 2 * i ∨ n = 2 * i + 1 := ⟨n / 2, by omega⟩
  · exact ⟨i, hn, by rw [getElem?_evens, hn]⟩
  · rw [← getElem?_odds] at hn
    cases hjoiners _ (List.mem_of_getElem? hn)

/-- Items whose placeholders stand for what waits are compiled without anything missing. What they
stand for is taken out of the store and becomes the new condition or a part of it. -/
theorem compile_of_waiting (hitems : ∀ t ∈ items, t.IsItem) (h : Waiting store items) :
    (∃ e, (compile items).run store = .error e ∧ OfItems e) ∨
    ∃ d next, (compile items).run store = .ok (d, next) ∧ store.Emptied next (indices items) ∧
      ∀ k ∈ indices items, ∃ c, store.at? k = some c ∧ Placed k c items d := by
  match items, hitems, h with
  | [], _, _ => exact Or.inl ⟨.evenItems 0, rfl, nofun, nofun⟩
  | [t], hitems, h =>
    obtain ⟨_, hc | ⟨hc, ⟨⟩⟩⟩ := h.exists_values hitems
    obtain ⟨next, hrun, hemptied⟩ := resolve_of_value hc
    refine Or.inr ⟨_, next, hrun, hemptied, fun k hk => ?_⟩
    obtain rfl : t = .group k := by simpa [eq_comm] using mem_indices_iff.mp hk
    exact ⟨_, hc, .whole⟩
  | t :: u :: ts, hitems, h =>
    by_cases heven : ts.length % 2 = 0
    · refine Or.inl ⟨.evenItems (ts.length + 2), ?_, nofun, nofun⟩
      simp only [compile, heven, if_true]
      rfl
    have hodd : ts.length % 2 = 1 := by omega
    cases hjoin : joinedBy u (odds ts) with
    | error e =>
      rw [compile_of_odd hodd]
      exact Or.inl ⟨e, run_bind_error (run_lift_error hjoin), ofItems_of_joinedBy hjoin⟩
    | ok op =>
      obtain ⟨rfl, hall⟩ := joinedBy_eq_ok hjoin
      have hjoiners : ∀ v ∈ odds (t :: .word op.symbol :: ts), v = .word op.symbol := by
        rw [odds, List.forall_mem_cons]
        exact ⟨rfl, hall⟩
      have hsub : (evens (t :: .word op.symbol :: ts)).Sublist (t :: .word op.symbol :: ts) :=
        evens_sublist _
      obtain ⟨cs, hcs⟩ :=
        (h.sublist hsub).exists_values fun v hv => hitems v (hsub.subset hv)
      obtain ⟨next, hrun, hemptied⟩ := compile_of_values hodd hjoin hcs h.distinct
      refine Or.inr ⟨.group op cs, next, hrun, hemptied, fun k hk => ?_⟩
      -- the placeholder is no joiner, so it is an operand, and its condition is the child there
      obtain ⟨c, hc⟩ := h.waiting k hk
      obtain ⟨i, hitem, hi⟩ := exists_operand_place hjoiners hk
      exact ⟨c, hc, .operand hitem ((getElem?_of_values hcs hi).trans hc)⟩

/-! ## The invariant -/

namespace Work

/-- Between two steps of the work, placeholders and what waits in the store answer each other. -/
structure Tidy (w : Work) : Prop where
  distinct : (indices w.tokens).Nodup
  waiting : ∀ k, k ∈ indices w.tokens ↔ ∃ c, w.store.at? k = some c
  /-- The group that was finished last is still in the text. -/
  newest : ∀ k, w.store.size = k + 1 → k ∈ indices w.tokens
  /-- As long as no group is finished, the text is as it was. -/
  untouched : w.store.size = 0 → ∃ ts, w.tokens = inParens ts

/-- What a step does that finishes a group. -/
structure Finishes (w next : Work) (before items rest : List Token) (d : Condition) : Prop where
  slice : w.Slice before items rest
  tokens : next.tokens = before ++ .group w.store.size :: rest
  size : next.store.size = w.store.size + 1
  at? : ∀ k, next.store.at? k =
    if k = w.store.size then some d else if k ∈ indices items then none else w.store.at? k
  placed : ∀ k ∈ indices items, ∃ c, w.store.at? k = some c ∧ Placed k c items d

variable {w next mid last : Work} {before items rest : List Token} {d : Condition} {n k : Nat}

/-- The text of the work around the group of the next step. -/
theorem Slice.tokens_eq (h : w.Slice before items rest) :
    w.tokens = before ++ .opener :: (items ++ .closer :: rest) :=
  (cutLast?_eq_some_iff.mp h.last).1

/-- No parenthesis is left between the last opening one and the next closing one. -/
theorem Slice.isItem (h : w.Slice before items rest) : ∀ t ∈ items, t.IsItem := by
  intro t ht
  have hopener := (cutLast?_eq_some_iff.mp h.last).2
  have hcloser := (cutFirst?_eq_some_iff.mp h.first).2
  refine ⟨?_, ?_⟩
  · rintro rfl
    exact hopener (List.mem_append_left _ ht)
  · rintro rfl
    exact hcloser ht

/-- A step compiles the items of its group, and puts a placeholder where the group was. -/
theorem Slice.step_eq (h : w.Slice before items rest) : w.step =
    match (compile items).run w.store with
    | .error e => .error (.error e)
    | .ok (c, store) => .ok ⟨before ++ .group store.size :: rest, (store.push c).2⟩ := by
  simp only [step, h.last, h.first]
  rfl

theorem Slice.indices_eq (h : w.Slice before items rest) :
    indices w.tokens = indices before ++ (indices items ++ indices rest) := by
  rw [h.tokens_eq, indices_append, indices_opener, indices_append, indices_closer]

/-- A placeholder names a place that was filled. -/
theorem Tidy.lt_size (h : w.Tidy) (hk : k ∈ indices w.tokens) : k < w.store.size := by
  obtain ⟨c, hc⟩ := (h.waiting k).mp hk
  exact Store.lt_size_of_at? hc

/-- What the items of a group need is there. -/
theorem Tidy.waiting_items (h : w.Tidy) (hslice : w.Slice before items rest) :
    Waiting w.store items := by
  have hdistinct := h.distinct
  have hwaiting := h.waiting
  simp only [hslice.indices_eq, List.nodup_append, List.mem_append] at hdistinct hwaiting
  exact ⟨hdistinct.2.1.1, fun k hk => (hwaiting k).mp (Or.inr (Or.inl hk))⟩

/-- Compiling the items of a slice finishes a group or fails because of these items. -/
theorem Tidy.finishes (h : w.Tidy) (hslice : w.Slice before items rest) :
    (∃ e, w.step = .error (.error e) ∧ OfItems e) ∨
    ∃ next d, w.step = .ok next ∧ w.Finishes next before items rest d := by
  rw [hslice.step_eq]
  -- the step is the compilation of the slice, which fails for its items or empties their places
  rcases compile_of_waiting hslice.isItem (h.waiting_items hslice) with
    ⟨e, hrun, he⟩ | ⟨d, store, hrun, hemptied, hplaced⟩
  · rw [hrun]
    exact Or.inl ⟨e, rfl, he⟩
  · rw [hrun]
    refine Or.inr ⟨_, d, rfl, hslice, ?_, ?_, fun k => ?_, hplaced⟩
    · rw [hemptied.size]
    · rw [Store.size_push, hemptied.size]
    · rw [Store.at?_push, hemptied.size, hemptied.at?]

/-- Where no group is to be compiled the work is over, at an unclosed parenthesis or because no
opening one is left. -/
theorem slice_or_stop (w : Work) : (∃ before items rest, w.Slice before items rest) ∨
    (w.step = .error w.latest ∧
      ∃ before after, w.tokens = before ++ .opener :: after ∧ .closer ∉ after) ∨
    w.step = .error w.root := by
  cases hlast : cutLast? .opener w.tokens with
  | none =>
    -- no opening parenthesis is left
    refine Or.inr (Or.inr ?_)
    simp only [step, hlast]
  | some cut =>
    obtain ⟨before, after⟩ := cut
    cases hfirst : cutFirst? .closer after with
    | none =>
      -- the last one is never closed
      refine Or.inr (Or.inl ⟨?_, before, after, (cutLast?_eq_some_iff.mp hlast).1,
        cutFirst?_eq_none_iff.mp hfirst⟩)
      simp only [step, hlast, hfirst]
    | some cut =>
      obtain ⟨items, rest⟩ := cut
      obtain ⟨rfl, -⟩ := cutFirst?_eq_some_iff.mp hfirst
      exact Or.inl ⟨before, items, rest, hlast, hfirst⟩

/-- Every step that goes on finishes a group; the other two cases stop the work. -/
theorem Tidy.exists_finishes (h : w.Tidy) (hstep : w.step = .ok next) :
    ∃ before items rest d, w.Finishes next before items rest d := by
  rcases w.slice_or_stop with ⟨before, items, rest, hslice⟩ | ⟨hstop, -⟩ | hstop
  · rcases h.finishes hslice with ⟨e, hstop, -⟩ | ⟨next', d, hstep', hfinishes⟩
    · cases hstop.symm.trans hstep
    · obtain rfl := Except.ok.inj (hstep'.symm.trans hstep)
      exact ⟨before, items, rest, d, hfinishes⟩
  · cases hstop.symm.trans hstep
  · cases hstop.symm.trans hstep

theorem Finishes.indices_eq (h : w.Finishes next before items rest d) :
    indices next.tokens = indices before ++ w.store.size :: indices rest := by
  rw [h.tokens, indices_append, indices_group]

/-- The placeholders of the items go, the new one comes, and the others stay. -/
theorem Finishes.tidy (h : w.Finishes next before items rest d) (hw : w.Tidy) : next.Tidy where
  distinct := by
    have hdistinct := hw.distinct
    rw [h.slice.indices_eq] at hdistinct
    rw [h.indices_eq, List.nodup_middle, List.nodup_cons]
    refine ⟨fun hmem => ?_, hdistinct.sublist ?_⟩
    · -- the new index was not given out before
      have hold : w.store.size ∈ indices w.tokens := by
        rw [h.slice.indices_eq]
        simp only [List.mem_append] at hmem ⊢
        tauto
      exact absurd (hw.lt_size hold) (Nat.lt_irrefl _)
    · exact List.Sublist.append_left (List.sublist_append_right _ _) _
  waiting k := by
    have hdistinct := hw.distinct
    have hwaiting := hw.waiting k
    rw [h.slice.indices_eq] at hdistinct hwaiting
    rw [h.indices_eq, h.at?]
    by_cases hnew : k = w.store.size
    · simp [hnew]
    · by_cases hitem : k ∈ indices items
      · -- no other placeholder has the index of one that was used up
        simp only [List.nodup_append, List.mem_append] at hdistinct
        have hbefore : k ∉ indices before := fun hk => hdistinct.2.2 k hk k (Or.inl hitem) rfl
        have hrest : k ∉ indices rest := fun hk => hdistinct.2.1.2.2 k hitem k hk rfl
        simp [hnew, hitem, hbefore, hrest]
      · simpa [hnew, hitem] using hwaiting
  newest k hk := by
    rw [h.size] at hk
    obtain rfl : w.store.size = k := by omega
    rw [h.indices_eq]
    simp
  untouched hsize := by
    rw [h.size] at hsize
    omega

/-- A step keeps the placeholders and the store in line. -/
theorem Tidy.step (h : w.Tidy) (hstep : w.step = .ok next) : next.Tidy := by
  obtain ⟨before, items, rest, d, hfinishes⟩ := h.exists_finishes hstep
  exact hfinishes.tidy h

/-- A text has no placeholders, and the store is empty at first. -/
theorem tidy_start (text : String) : (start text).Tidy := by
  have hnone : indices (start text).tokens = [] := by
    rw [List.eq_nil_iff_forall_not_mem]
    intro k hk
    have hmem := mem_indices_iff.mp hk
    exact group_not_mem_tokens text k (by simpa [start, inParens] using hmem)
  have hempty (k : Nat) : (start text).store.at? k = none := rfl
  refine ⟨?_, fun k => ?_, fun k hk => ?_, fun _ => ⟨_, rfl⟩⟩
  · rw [hnone]
    exact List.nodup_nil
  · simp [hnone, hempty]
  · cases hk

/-- Between any two steps of compiling a text, every step so far has finished one group. -/
theorem Runs.tidy {text : String} (h : (start text).Runs n w) :
    w.Tidy ∧ w.store.size = n := by
  induction h with
  | refl => exact ⟨tidy_start text, rfl⟩
  | step _ hstep ih =>
    -- the invariant says that the step finishes a group, and this keeps it
    obtain ⟨htidy, rfl⟩ := ih
    obtain ⟨before, items, rest, d, hfinishes⟩ := htidy.exists_finishes hstep
    exact ⟨hfinishes.tidy htidy, hfinishes.size⟩

/-! ## The end of the work -/

/-- At an unclosed parenthesis the group that was finished last is there. Its placeholder was made
by the last step, and nothing has been compiled since. -/
theorem Tidy.latest (h : w.Tidy) {after : List Token}
    (htokens : w.tokens = before ++ .opener :: after) (hcloser : .closer ∉ after) :
    0 < w.store.size ∧ ∃ c, w.latest = .ok c := by
  have hpos : 0 < w.store.size := by
    rcases Nat.eq_zero_or_pos w.store.size with hzero | hpos
    · -- before the first step the closing parenthesis at the end answers every opening one
      obtain ⟨ts, hts⟩ := h.untouched hzero
      have hend : (before ++ .opener :: after).getLast? = some .closer := by
        rw [← htokens, hts, inParens, ← List.cons_append, List.getLast?_concat]
      rw [List.getLast?_append, List.getLast?_cons, Option.some_or, Option.some.injEq] at hend
      cases hafter : after.getLast? with
      | none =>
        rw [hafter] at hend
        cases hend
      | some t =>
        rw [hafter] at hend
        obtain rfl : t = .closer := hend
        exact absurd (List.mem_of_getLast? hafter) hcloser
    · exact hpos
  obtain ⟨k, hk⟩ : ∃ k, w.store.size = k + 1 := ⟨w.store.size - 1, by omega⟩
  obtain ⟨c, hc⟩ := (h.waiting k).mp (h.newest k hk)
  exact ⟨hpos, c, latest_eq hk hc⟩

/-- When no opening parenthesis is left, the one placeholder stands for what is there. -/
theorem Tidy.root (h : w.Tidy) : w.root = .error .unbalanced ∨ ∃ c, w.root = .ok c := by
  by_cases hsingle : ∃ i, w.tokens = [.group i]
  · -- the last placeholder still has its group
    obtain ⟨i, hi⟩ := hsingle
    obtain ⟨c, hc⟩ := (h.waiting i).mp (by simp [hi])
    refine Or.inr ⟨c, ?_⟩
    obtain ⟨ts, store⟩ := w
    obtain rfl : ts = [.group i] := hi
    exact root_eq hc
  · left
    unfold Work.root
    split
    · exact absurd ⟨_, ‹_›⟩ hsingle
    · rfl

/-- In none of the three ways in which the work stops is a condition missing. -/
theorem Tidy.stop_ne {outcome : Outcome} (h : w.Tidy) (hstop : w.step = .error outcome) (k : Nat) :
    outcome ≠ .error (.missingGroup k) := by
  rintro rfl
  -- a step stops in one of three ways, and none of them meets an empty place
  rcases w.slice_or_stop with
    ⟨before, items, rest, hslice⟩ | ⟨hstop', before, after, htokens, hcloser⟩ | hstop'
  · rcases h.finishes hslice with ⟨e, hstop', he⟩ | ⟨next, d, hstep, -⟩
    · exact he.2 k (Except.error.inj (Except.error.inj (hstop'.symm.trans hstop)))
    · cases hstep.symm.trans hstop
  · obtain ⟨-, c, hc⟩ := h.latest htokens hcloser
    rw [hc, hstop] at hstop'
    cases hstop'
  · rcases h.root with hroot | ⟨c, hroot⟩ <;>
    · rw [hroot, hstop] at hstop'
      cases hstop'

/-- Nothing is ever asked of the store that is not there. -/
theorem Tidy.run_ne (h : w.Tidy) (k : Nat) : w.run ≠ .error (.missingGroup k) := by
  induction w using Work.run.induct with
  | case1 w next hstep ih =>
    rw [run_eq, hstep]
    exact ih (h.step hstep)
  | case2 w outcome hstop =>
    rw [run_eq, hstop]
    exact h.stop_ne hstop k

/-! ## Moves -/

/-- The step that finishes a group moves all that the placeholders in it stand for. -/
theorem Finishes.moves (h : w.Finishes next before items rest d) (hstep : w.step = .ok next)
    (hk : k ∈ indices items) : w.Moves k next := by
  obtain ⟨c, hc, hplaced⟩ := h.placed k hk
  have hne : k ≠ w.store.size := Nat.ne_of_lt (Store.lt_size_of_at? hc)
  have hnew : next.store.at? w.store.size = some d := by rw [h.at?, if_pos rfl]
  have htaken : next.store.at? k = none := by rw [h.at?, if_neg hne, if_pos hk]
  exact ⟨hstep, ⟨before, items, rest, c, d, h.slice, hc, hnew, hplaced⟩, htaken⟩

/-- A place that is empty is not filled again. -/
theorem Finishes.stays_empty (h : w.Finishes next before items rest d) (hlt : k < w.store.size)
    (hnone : w.store.at? k = none) : next.store.at? k = none := by
  rw [h.at?, if_neg (Nat.ne_of_lt hlt), hnone, ite_self]

theorem Moves.exists_at? (h : w.Moves k next) : ∃ c, w.store.at? k = some c := by
  obtain ⟨_, _, _, c, _, _, hc, _⟩ := h.placed
  exact ⟨c, hc⟩

/-- There is one state after each number of steps, because a step has one outcome. So what is
moved in a step can be said of the text. -/
theorem Runs.unique (h : w.Runs n mid) (h' : w.Runs n last) : mid = last := by
  induction h generalizing last with
  | refl =>
    cases h' with
    | refl => rfl
  | step _ hstep ih =>
    cases h' with
    | step h' hstep' =>
      obtain rfl := ih h'
      exact Except.ok.inj (hstep.symm.trans hstep')

end Work

namespace MovedInto

variable {text : String} {w : Work} {i j n : Nat}

/-- A condition is moved into a group that is finished later. -/
theorem lt (h : MovedInto text k j) : k < j := by
  obtain ⟨w, next, hruns, hmoves⟩ := h
  obtain ⟨c, hc⟩ := hmoves.exists_at?
  have hlt := Store.lt_size_of_at? hc
  rwa [hruns.tidy.2] at hlt

/-- What was moved is gone for the rest of the work. -/
theorem at?_eq_none (h : MovedInto text k j) (hruns : (Work.start text).Runs n w) (hj : j < n) :
    w.store.at? k = none := by
  have hkj := h.lt
  induction hruns with
  | refl => omega
  | @step n mid next hmid hstep ih =>
    rcases Nat.lt_succ_iff_lt_or_eq.mp hj with hlt | rfl
    · obtain ⟨htidy, hsize⟩ := hmid.tidy
      obtain ⟨before, items, rest, d, hfinishes⟩ := htidy.exists_finishes hstep
      exact hfinishes.stays_empty (by omega) (ih hlt)
    · -- this is the step that moves it
      obtain ⟨w', next', hruns', hmoves⟩ := h
      obtain rfl := hmid.unique hruns'
      obtain rfl := Except.ok.inj (hstep.symm.trans hmoves.step)
      exact hmoves.taken

/-- What was moved is not moved once more. -/
theorem not_lt (h : MovedInto text k i) (h' : MovedInto text k j) : ¬ i < j := by
  intro hij
  -- the later step would find the place empty
  obtain ⟨w, next, hruns, hmoves⟩ := h'
  obtain ⟨c, hc⟩ := hmoves.exists_at?
  rw [h.at?_eq_none hruns hij] at hc
  cases hc

/-- A condition is moved into one group at most. -/
theorem unique (h : MovedInto text k i) (h' : MovedInto text k j) : i = j := by
  have hij := h.not_lt h'
  have hji := h'.not_lt h
  omega

end MovedInto

namespace Work

variable {text : String} {w : Work} {n : Nat}

/-- A group whose placeholder is gone was moved by one of the steps so far. -/
theorem Runs.exists_movedInto (h : (start text).Runs n w) (hk : k < n)
    (hgone : k ∉ indices w.tokens) : ∃ j < n, MovedInto text k j := by
  induction h with
  | refl => omega
  | @step n mid next hmid hstep ih =>
    obtain ⟨htidy, hsize⟩ := hmid.tidy
    obtain ⟨before, items, rest, d, hfinishes⟩ := htidy.exists_finishes hstep
    have hindices := hfinishes.indices_eq
    rw [hindices, hsize, List.mem_append, List.mem_cons] at hgone
    by_cases hmem : k ∈ indices mid.tokens
    · -- it was there before this step, so it was among the items
      rw [hfinishes.slice.indices_eq, List.mem_append, List.mem_append] at hmem
      have hitem : k ∈ indices items := by tauto
      exact ⟨n, Nat.lt_succ_self n, mid, next, hmid, hfinishes.moves hstep hitem⟩
    · have hlt : k < n := by
        have hne : k ≠ n := by tauto
        omega
      obtain ⟨j, hj, hmoved⟩ := ih hlt hmem
      exact ⟨j, Nat.lt_succ_of_lt hj, hmoved⟩

/-! ## Compiling a text -/

/-- What holds between two steps of compiling a text. -/
structure Accounted (text : String) (w : Work) : Prop where
  /-- No group has two placeholders. -/
  distinct : (indices w.tokens).Nodup
  /-- A group with a placeholder is there to be taken. -/
  waiting : ∀ k ∈ indices w.tokens, k < w.store.size ∧ ∃ c, w.store.at? k = some c
  /-- A group without a placeholder was moved, once and for all, into a later one. -/
  moved : ∀ k < w.store.size, k ∉ indices w.tokens → w.store.at? k = none ∧
    ∃ j, (k < j ∧ j < w.store.size) ∧ ∀ i, MovedInto text k i ↔ i = j
  /-- What is compiled next has no parenthesis in it, and fails only for reasons of its own. -/
  slice : ∀ before items rest, w.Slice before items rest → (∀ t ∈ items, t.IsItem) ∧
    ∀ e, (compile items).run w.store = .error e → OfItems e
  /-- At an unclosed parenthesis there is a group to answer with. -/
  unclosed : ∀ before after, cutLast? .opener w.tokens = some (before, after) →
    cutFirst? .closer after = none → 0 < w.store.size ∧ ∃ c, w.latest = .ok c

/-- The invariant of a run, with the moves so far. -/
theorem Runs.accounted (h : (start text).Runs n w) : w.Accounted text := by
  obtain ⟨htidy, hsize⟩ := h.tidy
  refine ⟨htidy.distinct, fun k hk => ⟨htidy.lt_size hk, (htidy.waiting k).mp hk⟩, ?_, ?_, ?_⟩
  · intro k hk hgone
    rw [hsize] at hk
    obtain ⟨j, hj, hmoved⟩ := h.exists_movedInto hk hgone
    refine ⟨hmoved.at?_eq_none h hj, j, ⟨hmoved.lt, by omega⟩, fun i => ⟨fun h' => ?_, ?_⟩⟩
    · exact h'.unique hmoved
    · rintro rfl
      exact hmoved
  · intro before items rest hslice
    refine ⟨hslice.isItem, fun e he => ?_⟩
    rcases compile_of_waiting hslice.isItem (htidy.waiting_items hslice) with
      ⟨e', hrun, he'⟩ | ⟨d, next, hrun, -⟩
    · obtain rfl := Except.error.inj (hrun.symm.trans he)
      exact he'
    · cases hrun.symm.trans he
  · intro before after hlast hfirst
    exact htidy.latest (cutLast?_eq_some_iff.mp hlast).1 (cutFirst?_eq_none_iff.mp hfirst)

end Work

/-- While any text is compiled, all finished groups are accounted for between any two steps: each
waits for its placeholder, or was moved into one later group. So a group that is not there is never
asked for. -/
theorem finished_groups_moved_once (text : String) :
    (∀ n w, (Work.start text).Runs n w → w.store.size = n ∧ w.Accounted text) ∧
    ∀ k, Condition.parse text ≠ .error (.missingGroup k) := by
  refine ⟨fun n w hruns => ⟨hruns.tidy.2, hruns.accounted⟩, fun k => ?_⟩
  have hparse : Condition.parse text = (Work.start text).run := rfl
  rw [hparse]
  exact (Work.tidy_start text).run_ne k

/-- A group in a redundant pair of parentheses is moved as a whole, and then as an operand. The text
has a stray parenthesis and an unclosed one. -/
theorem finished_groups_moved_once_of_stray :
    let text := "c) && (((a)) && b"
    let front : List Token := [.opener, .word "c", .closer, .word "&&"]
    let w : Work := ⟨front ++ [.opener, .group 1, .word "&&", .word "b", .closer],
      ⟨#[none, some (.key "a")]⟩⟩
    let next : Work := ⟨front ++ [.group 2],
      ⟨#[none, none, some (.group .and [.key "a", .key "b"])]⟩⟩
    (Work.start text).Runs 2 w ∧ (Work.start text).Runs 3 next ∧
      (∀ i, MovedInto text 0 i ↔ i = 1) ∧ (∀ i, MovedInto text 1 i ↔ i = 2) ∧
      Condition.parse text ≠ .error (.missingGroup 0) := by
  intro text front w next
  let first : Work := ⟨front ++ [.opener, .opener, .group 0, .closer, .word "&&", .word "b",
    .closer], ⟨#[some (.key "a")]⟩⟩
  have htokens : tokens text = .word "c" :: .closer :: .word "&&" :: .opener :: .opener ::
      .opener :: .word "a" :: .closer :: .closer :: [.word "&&", .word "b"] := by decide
  have hfirst : (Work.start text).step = .ok first := by
    rw [Work.start, htokens]
    rfl
  have hsecond : first.step = .ok w := rfl
  have hthird : w.step = .ok next := rfl
  have hw : (Work.start text).Runs 2 w := .step (.step .refl hfirst) hsecond
  have hnext : (Work.start text).Runs 3 next := .step hw hthird
  obtain ⟨hruns, hparse⟩ := finished_groups_moved_once text
  obtain ⟨-, i, hi, hmoved⟩ := (hruns 2 w hw).2.moved 0 (by decide) (by decide)
  obtain ⟨-, j, hj, hmoved'⟩ := (hruns 3 next hnext).2.moved 1 (by decide) (by decide)
  obtain rfl : i = 1 := by
    have hlt : i < 2 := hi.2
    omega
  obtain rfl : j = 2 := by
    have hlt : j < 3 := hj.2
    omega
  exact ⟨hw, hnext, hmoved, hmoved', hparse 0⟩

end KeyRules.Expression
