import KeyRules.Expression.Parse
import KeyRules.Proofs.Grammar

/-!
# KeyRules — the verdict on a text

What compiling a text in parentheses must give, said without the compilation: the groups that count
are those to the right of the last unclosed parenthesis, or all of them when there is none. The
faulty group among them that opens last decides. Without one, the outcome is the condition of the
first group that counts. Only when every parenthesis to the right of the start is in order and
the text is still no single group, the parentheses themselves are at fault.

* `Reached` — the groups behind which everything is in order.
* `Verdict` — the outcome that a text calls for.
* `sound_of_condition` — every group inside a group with a condition is in order.
* `Verdict.unique` — a text calls for one outcome only.
* `Verdict.infix_of_ok` — a condition that a text calls for is the one of parts inside it.
-/

namespace KeyRules.Expression

open KeyRules.Expression.Part (tokensAll groupsAll)

/-- No unclosed parenthesis and no faulty group is at a place. -/
def Sound (ts : List Token) (i : Nat) : Prop :=
  ¬ Unclosed ts i ∧ ∀ ps, GroupAt ts i ps → fault ps = none

/-- A group opens at a place, and everything behind the place is in order. -/
structure Reached (ts : List Token) (i : Nat) : Prop where
  group : ∃ ps, GroupAt ts i ps
  sound : ∀ j, i < j → Sound ts j

/-- Of all groups that open after a place, one opens first. -/
structure FirstGroup (ts : List Token) (u i : Nat) (ps : List Part) : Prop where
  after : u < i
  group : GroupAt ts i ps
  first : ∀ j qs, u < j → GroupAt ts j qs → i ≤ j

/-- The outcome that a text calls for. -/
inductive Verdict (ts : List Token) : Outcome → Prop where
  | faulty {i : Nat} {ps : List Part} {e : Error} (hgroup : GroupAt ts i ps)
      (he : fault ps = some e) (hsound : ∀ j, i < j → Sound ts j) : Verdict ts (.error e)
  | unclosed {u i : Nat} {ps : List Part} {c : Condition} (hopen : Unclosed ts u)
      (hsound : ∀ j, u < j → Sound ts j) (hfirst : FirstGroup ts u i ps)
      (hc : groupCondition? ps = some c) : Verdict ts (.ok c)
  | whole {ps : List Part} {c : Condition} (hts : ts = inParens (tokensAll ps))
      (hc : groupCondition? ps = some c) : Verdict ts (.ok c)
  | scattered (hsound : ∀ j, Sound ts j) (hts : ∀ ps, ts ≠ inParens (tokensAll ps)) :
      Verdict ts (.error .unbalanced)

variable {ts us : List Token} {i j u : Nat} {ps : List Part} {c : Condition} {r : Outcome}

/-- Text in front does not count for what stands behind it, so a text can be judged from any place
on. -/
theorem sound_append : Sound (us ++ ts) (us.length + i) ↔ Sound ts i := by
  simp only [Sound, unclosed_append, groupAt_append]

theorem sound_cons {t : Token} : Sound (t :: ts) (i + 1) ↔ Sound ts i := by
  simp only [Sound, unclosed_cons, groupAt_cons]

/-- Only an opening parenthesis can be unsound, as it alone begins a group or lacks a partner
behind it. -/
theorem sound_of_ne_opener (h : ts[i]? ≠ some .opener) : Sound ts i :=
  ⟨fun hopen => h hopen.1, fun _ hgroup => absurd hgroup.opener h⟩

/-- A group that opens at a place and has no fault makes the place sound. -/
theorem sound_of_groupAt (h : GroupAt ts i ps) (hfault : fault ps = none) : Sound ts i := by
  refine ⟨fun hopen => hopen.2 ps h, fun qs hqs => ?_⟩
  rw [hqs.unique h, hfault]

/-- Every place after an early one is sound when every place of the rest is. -/
theorem sound_behind {t : Token} (hsound : ∀ j, Sound ts j) (hj : us.length < j) :
    Sound (us ++ t :: ts) j := by
  obtain ⟨k, rfl⟩ := Nat.exists_eq_add_of_lt hj
  exact sound_append.mpr (sound_cons.mpr (hsound k))

/-- The first group of a text is the first one behind whatever stands in front of the text. -/
theorem firstGroup_behind {t : Token} {n : Nat} (hgroup : GroupAt ts n ps)
    (hfirst : ∀ j qs, GroupAt ts j qs → n ≤ j) :
    FirstGroup (us ++ t :: ts) us.length (us.length + (n + 1)) ps where
  after := by omega
  group := groupAt_append.mpr (groupAt_cons.mpr hgroup)
  first j qs hj hqs := by
    obtain ⟨k, rfl⟩ := Nat.exists_eq_add_of_lt hj
    have hk := hfirst k qs (groupAt_cons.mp (groupAt_append.mp hqs))
    omega

/-- Nothing is wrong with parts whose groups have no faults. -/
theorem sound_tokensAll (hgroups : ∀ qs ∈ groupsAll ps, fault qs = none) (j : Nat) :
    Sound (tokensAll ps) j := by
  by_cases hopener : (tokensAll ps)[j]? = some .opener
  · have hj : j < (tokensAll ps).length := (List.getElem?_eq_some_iff.mp hopener).1
    have hopener' : (tokensAll ps ++ [])[j]? = some .opener := by simpa using hopener
    obtain ⟨qs, hmem, hgroup, -⟩ := opener_inside ps [] hj hopener'
    rw [List.append_nil] at hgroup
    exact sound_of_groupAt hgroup (hgroups qs hmem)
  · exact sound_of_ne_opener hopener

/-- Every group inside a group with a condition is in order: a fault anywhere in it would have
left it without one. -/
theorem sound_of_condition (hc : groupCondition? ps = some c) (j : Nat) :
    Sound (inParens (tokensAll ps)) j := by
  obtain ⟨hps, hinner⟩ := fault_of_groupCondition? ps hc
  rw [inParens_eq_tokensAll]
  refine sound_tokensAll ?_ j
  intro qs hqs
  have hmem : qs = ps ∨ qs ∈ groupsAll ps := by simpa [groupsAll, Part.groups] using hqs
  rcases hmem with rfl | hmem
  · exact hps
  · exact hinner qs hmem

/-- Words open nothing, so the first part that is a group opens first. -/
theorem first_group_of_words (ws : List String) (qs ps : List Part) :
    GroupAt (tokensAll (ws.map .word ++ .group qs :: ps)) ws.length qs ∧
      ∀ j qs', GroupAt (tokensAll (ws.map .word ++ .group qs :: ps)) j qs' → ws.length ≤ j := by
  induction ws with
  | nil =>
    refine ⟨?_, fun j _ _ => Nat.zero_le j⟩
    simpa [tokensAll, Part.tokens, inParens] using groupAt_zero qs (tokensAll ps)
  | cons w ws ih =>
    refine ⟨groupAt_cons.mpr ih.1, ?_⟩
    intro j qs' hqs'
    -- a group opens at no word, so it opens behind the first one
    cases j with
    | zero => simpa [tokensAll, Part.tokens] using hqs'.opener
    | succ j => exact Nat.succ_le_succ (ih.2 j qs' (groupAt_cons.mp hqs'))

/-- Parts in order behind an unclosed parenthesis call for the condition of their first group. -/
theorem verdict_of_unclosed (pre : List Token) (ws : List String) (qs after : List Part)
    (hsound : ∀ j, Sound (tokensAll (ws.map .word ++ .group qs :: after)) j)
    (hc : groupCondition? qs = some c) :
    Verdict (pre ++ .opener :: tokensAll (ws.map .word ++ .group qs :: after)) (.ok c) := by
  obtain ⟨hgroup, hfirst⟩ := first_group_of_words ws qs after
  refine .unclosed (unclosed_of_split pre _) ?_ (firstGroup_behind hgroup hfirst) hc
  intro j hj
  exact sound_behind hsound hj

/-- A faulty group is unsound where it opens. -/
theorem GroupAt.not_sound {e : Error} (h : GroupAt ts i ps) (he : fault ps = some e) :
    ¬ Sound ts i := by
  intro hsound
  simp [hsound.2 ps h] at he

/-- A parenthesis that nothing closes is unsound as well. -/
theorem Unclosed.not_sound (h : Unclosed ts i) : ¬ Sound ts i :=
  fun hsound => hsound.1 h

/-- There is one last place that is not sound. -/
theorem last_unsound_unique (hi : ¬ Sound ts i) (hsound : ∀ k, i < k → Sound ts k)
    (hj : ¬ Sound ts j) (hsound' : ∀ k, j < k → Sound ts k) : i = j := by
  rcases Nat.lt_trichotomy i j with hlt | heq | hgt
  · exact absurd (hsound j hlt) hj
  · exact heq
  · exact absurd (hsound' i hgt) hi

/-- A text calls for one outcome only. Two faults, or a fault and an unclosed parenthesis, would
each have to stand behind the other. -/
theorem Verdict.unique {s : Outcome} (hr : Verdict ts r) (hs : Verdict ts s) : r = s := by
  -- a text has at most one last place that is not sound, and its kind tells the two failures
  -- apart; if every place is sound, the shape of the text decides
  cases hr with
  | faulty hgroup he hsound =>
    have hlast := hgroup.not_sound he
    cases hs with
    | faulty hgroup' he' hsound' =>
      obtain rfl := last_unsound_unique hlast hsound (hgroup'.not_sound he') hsound'
      obtain rfl := hgroup.unique hgroup'
      rw [Option.some.inj (he.symm.trans he')]
    | unclosed hopen' hsound' hfirst' hc' =>
      obtain rfl := last_unsound_unique hlast hsound hopen'.not_sound hsound'
      exact absurd hgroup (hopen'.2 _)
    | whole hts' hc' => exact absurd (hts' ▸ sound_of_condition hc' _) hlast
    | scattered hsound' hts' => exact absurd (hsound' _) hlast
  | unclosed hopen hsound hfirst hc =>
    have hlast := hopen.not_sound
    cases hs with
    | faulty hgroup' he' hsound' =>
      obtain rfl := last_unsound_unique hlast hsound (hgroup'.not_sound he') hsound'
      exact absurd hgroup' (hopen.2 _)
    | unclosed hopen' hsound' hfirst' hc' =>
      obtain rfl := last_unsound_unique hlast hsound hopen'.not_sound hsound'
      obtain rfl := Nat.le_antisymm (hfirst.first _ _ hfirst'.after hfirst'.group)
        (hfirst'.first _ _ hfirst.after hfirst.group)
      obtain rfl := hfirst.group.unique hfirst'.group
      rw [Option.some.inj (hc.symm.trans hc')]
    | whole hts' hc' => exact absurd (hts' ▸ sound_of_condition hc' _) hlast
    | scattered hsound' hts' => exact absurd (hsound' _) hlast
  | whole hts hc =>
    have hall := sound_of_condition hc
    rw [← hts] at hall
    cases hs with
    | faulty hgroup' he' hsound' => exact absurd (hall _) (hgroup'.not_sound he')
    | unclosed hopen' hsound' hfirst' hc' => exact absurd (hall _) hopen'.not_sound
    | whole hts' hc' =>
      obtain rfl := inParens_injective (hts.symm.trans hts')
      rw [Option.some.inj (hc.symm.trans hc')]
    | scattered hsound' hts' => exact absurd hts (hts' _)
  | scattered hsound hts =>
    cases hs with
    | faulty hgroup' he' hsound' => exact absurd (hsound _) (hgroup'.not_sound he')
    | unclosed hopen' hsound' hfirst' hc' => exact absurd (hsound _) hopen'.not_sound
    | whole hts' hc' => exact absurd hts' (hts _)
    | scattered hsound' hts' => rfl

/-- A condition is always the one of parts that stand next to each other in the text. -/
theorem Verdict.infix_of_ok (h : Verdict ts (.ok c)) :
    ∃ ps, groupCondition? ps = some c ∧ tokensAll ps <:+: ts := by
  generalize hr : Except.ok c = r at h
  cases h with
  | faulty => cases hr
  | @unclosed u i ps _ _ _ hfirst hc =>
    cases hr
    -- the condition is that of the first group behind the limit
    obtain ⟨rest, hdrop⟩ := hfirst.group
    refine ⟨ps, hc, ts.take i ++ [.opener], .closer :: rest, ?_⟩
    calc ts.take i ++ [.opener] ++ tokensAll ps ++ .closer :: rest
        = ts.take i ++ ts.drop i := by simp [hdrop]
      _ = ts := List.take_append_drop i ts
  | @whole ps _ hts hc =>
    cases hr
    exact ⟨ps, hc, [.opener], [.closer], by simp [hts, inParens]⟩
  | scattered => cases hr

end KeyRules.Expression
