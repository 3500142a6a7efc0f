import KeyRules.Proofs.Balanced

/-!
# KeyRules — what a failed expression is told

A balanced expression that does not compile has a malformed group, and the error is the one of the
malformed group that opens last. `Malformed` tells what is wrong with a group from its items by
place: how many there are, and what stands at the odd places. The items at the even places, and
what the groups among them hold, do not matter.

* `Malformed` — what is wrong with a group of items, said by place.
* `joinerFault_eq_some_iff` — what can be wrong with the joiners of a group.
* `fault_eq_some_iff` — the fault of a group is what is wrong with its items.
* `Malformed.of_same_joiners` — the operands of a group do not matter.
* `parse_eq_error_iff_lastFault?` — the error of an expression, found from its parts.
* `parse_eq_error_iff` — the error of a balanced expression.
-/

namespace KeyRules.Expression

open KeyRules.Expression.Part (tokensAll groupsAll)

/-- An item of a group in joiner position, behind the first joiner. -/
structure FurtherJoiner (ps : List Part) (k : Nat) (q : Part) : Prop where
  odd : k % 2 = 1
  three_le : 3 ≤ k
  item : ps[k]? = some q

/-- What is wrong with a group that holds the given items, its inner groups counted as one item
each: an even number of items; else a further joiner that differs from the first, of which the
first such is named; else a first joiner that is no operator. -/
inductive Malformed (ps : List Part) : Error → Prop where
  | even (h : ps.length % 2 = 0) : Malformed ps (.evenItems ps.length)
  | mixed {joiner other : Part} {k : Nat} (hodd : ps.length % 2 = 1)
      (hjoiner : ps[1]? = some joiner) (hother : FurtherJoiner ps k other)
      (hdiffers : joiner.differs other = true)
      (hfirst : ∀ m q, FurtherJoiner ps m q → m < k → joiner.differs q = false) :
      Malformed ps (.mixedOperators joiner.label other.label)
  | unknown {joiner : Part} (hodd : ps.length % 2 = 1) (hjoiner : ps[1]? = some joiner)
      (hsame : ∀ m q, FurtherJoiner ps m q → joiner.differs q = false)
      (hop : ∀ op : Operator, joiner ≠ .word op.symbol) :
      Malformed ps (.unknownOperator joiner.label)

variable {p joiner : Part} {ps rest others : List Part} {e : Error}

/-! ## The fault of a group by place -/

theorem getElem?_odds {α : Type} (xs : List α) (k : Nat) : (odds xs)[k]? = xs[2 * k + 1]? := by
  induction xs using odds.induct generalizing k with
  | case1 => simp [odds]
  | case2 x => simp [odds]
  | case3 x y xs ih =>
    cases k with
    | zero => rfl
    | succ k =>
      rw [odds, List.getElem?_cons_succ, ih]
      rfl

theorem getElem?_evens {α : Type} (xs : List α) (k : Nat) : (evens xs)[k]? = xs[2 * k]? := by
  induction xs using evens.induct generalizing k with
  | case1 => simp [evens]
  | case2 x => cases k <;> simp [evens]
  | case3 x y xs ih =>
    cases k with
    | zero => rfl
    | succ k =>
      rw [evens, List.getElem?_cons_succ, ih]
      rfl

/-- The further joiners of a group are the odd members of what follows the first joiner. -/
theorem furtherJoiner_iff {m : Nat} {q : Part} : FurtherJoiner (p :: joiner :: rest) m q ↔
    ∃ k, m = 2 * k + 3 ∧ (odds rest)[k]? = some q := by
  constructor
  · rintro ⟨hodd, hthree, hitem⟩
    -- the further joiners are at the odd places from the third on
    obtain ⟨k, rfl⟩ : ∃ k, m = 2 * k + 3 := ⟨(m - 3) / 2, by omega⟩
    refine ⟨k, rfl, ?_⟩
    rw [getElem?_odds]
    exact hitem
  · rintro ⟨k, rfl, hitem⟩
    rw [getElem?_odds] at hitem
    exact ⟨by omega, by omega, hitem⟩

theorem Part.operator?_eq_none_iff : p.operator? = none ↔ ∀ op : Operator, p ≠ .word op.symbol := by
  rw [Option.eq_none_iff_forall_ne_some]
  exact forall_congr' fun op => not_congr Part.operator?_eq_some_iff

/-- The joiners of a group have a fault when one differs from the first joiner, and the first such
is named, or when all agree and are no operator. -/
theorem joinerFault_eq_some_iff : joinerFault joiner others = some e ↔
    (∃ (k : Nat) (other : Part), others[k]? = some other ∧ joiner.differs other = true ∧
      (∀ (m : Nat) q, others[m]? = some q → m < k → joiner.differs q = false) ∧
      e = .mixedOperators joiner.label other.label) ∨
    ((∀ (m : Nat) q, others[m]? = some q → joiner.differs q = false) ∧
      (∀ op : Operator, joiner ≠ .word op.symbol) ∧ e = .unknownOperator joiner.label) := by
  cases hfind : others.find? joiner.differs with
  | some other =>
    obtain ⟨hdiffers, i, hi, hat, hbefore⟩ := List.find?_eq_some_iff_getElem.mp hfind
    have hother : others[i]? = some other := List.getElem?_eq_some_iff.mpr ⟨hi, hat⟩
    have hfirst : ∀ (m : Nat) q, others[m]? = some q → m < i → joiner.differs q = false := by
      intro m q hq hm
      obtain ⟨_, rfl⟩ := List.getElem?_eq_some_iff.mp hq
      simpa using hbefore m hm
    simp only [joinerFault, hfind, Option.some.injEq]
    constructor
    · rintro rfl
      exact Or.inl ⟨i, other, hother, hdiffers, hfirst, rfl⟩
    · rintro (⟨k, other', hother', hdiffers', hfirst', rfl⟩ | ⟨hsame, -⟩)
      · -- both are the first that differs
        rcases Nat.lt_trichotomy k i with hlt | rfl | hgt
        · simp [hfirst k other' hother' hlt] at hdiffers'
        · rw [Option.some.inj (hother.symm.trans hother')]
        · simp [hfirst' i other hother hgt] at hdiffers
      · simp [hsame i other hother] at hdiffers
  | none =>
    have hsame : ∀ (m : Nat) q, others[m]? = some q → joiner.differs q = false := by
      intro m q hq
      simpa using List.find?_eq_none.mp hfind q (List.mem_of_getElem? hq)
    have hnone : ∀ (k : Nat) other, others[k]? = some other → joiner.differs other ≠ true := by
      intro k other hother
      simp [hsame k other hother]
    -- all joiners agree, so only the operator can be wrong
    cases hop : joiner.operator? with
    | some op =>
      simp only [joinerFault, hfind, hop, reduceCtorEq, false_iff, not_or]
      refine ⟨?_, fun h => h.2.1 op (Part.operator?_eq_some_iff.mp hop)⟩
      rintro ⟨k, other, hother, hdiffers, -⟩
      exact hnone k other hother hdiffers
    | none =>
      simp only [joinerFault, hfind, hop, Option.some.injEq]
      constructor
      · rintro rfl
        exact Or.inr ⟨hsame, Part.operator?_eq_none_iff.mp hop, rfl⟩
      · rintro (⟨k, other, hother, hdiffers, -⟩ | ⟨-, -, rfl⟩)
        · exact absurd hdiffers (hnone k other hother)
        · rfl

/-- With an odd number of items the joiners alone decide. -/
theorem malformed_iff_joinerFault (hodd : (p :: joiner :: rest).length % 2 = 1) :
    Malformed (p :: joiner :: rest) e ↔ joinerFault joiner (odds rest) = some e := by
  rw [joinerFault_eq_some_iff]
  -- Behind the first joiner, the k-th of the others is the item at place 2k + 3.
  constructor
  · intro h
    cases h with
    | even heven => omega
    | mixed _ hjoiner hother hdiffers hfirst =>
      obtain rfl := Option.some.inj hjoiner
      obtain ⟨k, rfl, hat⟩ := furtherJoiner_iff.mp hother
      refine Or.inl ⟨k, _, hat, hdiffers, ?_, rfl⟩
      intro m q hq hm
      exact hfirst (2 * m + 3) q (furtherJoiner_iff.mpr ⟨m, rfl, hq⟩) (by omega)
    | unknown _ hjoiner hsame hop =>
      obtain rfl := Option.some.inj hjoiner
      refine Or.inr ⟨?_, hop, rfl⟩
      intro m q hq
      exact hsame (2 * m + 3) q (furtherJoiner_iff.mpr ⟨m, rfl, hq⟩)
  · rintro (⟨k, other, hat, hdiffers, hfirst, rfl⟩ | ⟨hsame, hop, rfl⟩)
    · refine .mixed hodd rfl (furtherJoiner_iff.mpr ⟨k, rfl, hat⟩) hdiffers ?_
      intro m q hq hm
      obtain ⟨i, rfl, hi⟩ := furtherJoiner_iff.mp hq
      exact hfirst i q hi (by omega)
    · refine .unknown hodd rfl ?_ hop
      intro m q hq
      obtain ⟨i, rfl, hi⟩ := furtherJoiner_iff.mp hq
      exact hsame i q hi

/-- An even number of items is a fault of its own, whatever they are. -/
theorem malformed_iff_of_even (heven : ps.length % 2 = 0) :
    Malformed ps e ↔ e = .evenItems ps.length := by
  constructor
  · intro h
    cases h with
    | even => rfl
    | mixed hodd => omega
    | unknown hodd => omega
  · rintro rfl
    exact .even heven

/-- A single item stands for itself, so nothing can be wrong with it. -/
theorem not_malformed_singleton : ¬ Malformed [p] e := by
  intro h
  cases h with
  | even heven => cases heven
  | mixed _ hjoiner => cases hjoiner
  | unknown _ hjoiner => cases hjoiner

/-- The fault of a group is what is wrong with its items. -/
theorem fault_eq_some_iff : fault ps = some e ↔ Malformed ps e := by
  match ps with
  | [] =>
    rw [malformed_iff_of_even rfl, fault, Option.some.injEq, eq_comm]
    rfl
  | [p] =>
    simp only [fault, reduceCtorEq, false_iff]
    exact not_malformed_singleton
  | p :: joiner :: rest =>
    have hlen : (p :: joiner :: rest).length = rest.length + 2 := rfl
    -- the number of items is judged before any joiner
    by_cases heven : rest.length % 2 = 0
    · rw [malformed_iff_of_even (by omega), fault, if_pos heven, Option.some.injEq, eq_comm, hlen]
    · rw [malformed_iff_joinerFault (by omega), fault, if_neg heven]

/-- A group has no fault in the one sense if it has none in the other. -/
theorem fault_eq_none_iff_not_malformed : fault ps = none ↔ ∀ e, ¬ Malformed ps e := by
  rw [Option.eq_none_iff_forall_ne_some]
  exact forall_congr' fun e => not_congr fault_eq_some_iff

/-- The operands of a group are no cause of a fault. -/
theorem Malformed.of_same_joiners {qs : List Part} (hlen : ps.length = qs.length)
    (hjoiners : ∀ k : Nat, k % 2 = 1 → ps[k]? = qs[k]?) (h : Malformed ps e) : Malformed qs e := by
  -- the further joiners stand at odd places, where the two groups agree
  have hfurther : ∀ {k q}, FurtherJoiner ps k q ↔ FurtherJoiner qs k q := by
    intro k q
    constructor
    · rintro ⟨hodd, hthree, hitem⟩
      exact ⟨hodd, hthree, (hjoiners k hodd).symm.trans hitem⟩
    · rintro ⟨hodd, hthree, hitem⟩
      exact ⟨hodd, hthree, (hjoiners k hodd).trans hitem⟩
  cases h with
  | even heven =>
    rw [hlen] at heven ⊢
    exact .even heven
  | mixed hodd hjoiner hother hdiffers hfirst =>
    exact .mixed (hlen ▸ hodd) ((hjoiners 1 rfl).symm.trans hjoiner) (hfurther.mp hother) hdiffers
      fun m q hq => hfirst m q (hfurther.mpr hq)
  | unknown hodd hjoiner hsame hop =>
    exact .unknown (hlen ▸ hodd) ((hjoiners 1 rfl).symm.trans hjoiner)
      (fun m q hq => hsame m q (hfurther.mpr hq)) hop

/-! ## The error of an expression -/

/-- A balanced text calls for an error just when a group of it has a fault. -/
theorem verdict_inParens_error_iff : Verdict (inParens (tokensAll ps)) (.error e) ↔
    ∃ i qs, GroupAt (inParens (tokensAll ps)) i qs ∧ fault qs = some e ∧
      ∀ j qs', i < j → GroupAt (inParens (tokensAll ps)) j qs' → fault qs' = none := by
  constructor
  · intro h
    -- no other verdict is an error, and none is about an unclosed parenthesis
    generalize hr : Except.error e = r at h
    cases h with
    | @faulty i qs e' hgroup he hsound =>
      cases hr
      exact ⟨i, qs, hgroup, he, fun j qs' hj hqs' => (hsound j hj).2 qs' hqs'⟩
    | unclosed => cases hr
    | whole => cases hr
    | scattered _ hts => exact absurd rfl (hts ps)
  · rintro ⟨i, qs, hgroup, he, hlast⟩
    refine .faulty hgroup he fun j hj => ?_
    exact ⟨not_unclosed_inParens ps j, fun qs' hqs' => hlast j qs' hj hqs'⟩

/-! ## The last fault -/

/-- The fault of the last one of several groups that has a fault. -/
def lastFault? (groups : List (List Part)) : Option Error :=
  (groups.filterMap fault).getLast?

/-- The last fault of two sequences of groups is that of the second, where it has one. -/
theorem lastFault?_append (gs hs : List (List Part)) :
    lastFault? (gs ++ hs) = (lastFault? hs).or (lastFault? gs) := by
  rw [lastFault?, List.filterMap_append, List.getLast?_append]
  rfl

theorem lastFault?_cons (ps : List Part) (gs : List (List Part)) :
    lastFault? (ps :: gs) = (lastFault? gs).or (fault ps) := by
  have hsingle : lastFault? [ps] = fault ps := by
    cases h : fault ps <;> simp [lastFault?, h]
  rw [← List.singleton_append, lastFault?_append, hsingle]

/-- What is wrong in a text without unclosed parentheses: nothing, or a fault of a group behind
which everything is in order. -/
inductive Diagnosis (ts : List Token) : Option Error → Prop where
  | sound (h : ∀ j, Sound ts j) : Diagnosis ts none
  | faulty {i : Nat} {ps : List Part} {e : Error} (hgroup : GroupAt ts i ps)
      (he : fault ps = some e) (hsound : ∀ j, i < j → Sound ts j) : Diagnosis ts (some e)

/-- What stands in front of a fault does not matter. -/
theorem Diagnosis.append_left {ts : List Token} (h : Diagnosis ts (some e)) (us : List Token) :
    Diagnosis (us ++ ts) (some e) := by
  cases h with
  | faulty hgroup he hsound =>
    refine .faulty (groupAt_append.mpr hgroup) he fun j hj => ?_
    obtain ⟨k, rfl⟩ : ∃ k, j = us.length + k := ⟨j - us.length, by omega⟩
    exact sound_append.mpr (hsound k (by omega))

/-- A token that opens nothing adds no fault. -/
theorem sound_cons_of_ne_opener {t : Token} {ts : List Token} (ht : t ≠ .opener)
    (h : ∀ j, Sound ts j) (j : Nat) : Sound (t :: ts) j := by
  cases j with
  | zero => exact sound_of_ne_opener (by simpa using ht)
  | succ j => exact sound_cons.mpr (h j)

mutual

/-- With everything in order behind a part, what is wrong is what is wrong with its groups. -/
theorem Part.diagnosis : ∀ (p : Part) {rest : List Token}, (∀ j, Sound rest j) →
    Diagnosis (p.tokens ++ rest) (lastFault? p.groups)
  | .word text, rest, h => .sound (sound_cons_of_ne_opener (by simp) h)
  | .group ps, rest, h => by
    have hinside : Diagnosis (tokensAll ps ++ .closer :: rest) (lastFault? (groupsAll ps)) :=
      diagnosis_tokensAll ps (sound_cons_of_ne_opener (by simp) h)
    have hshape : (Part.group ps).tokens ++ rest =
        .opener :: (tokensAll ps ++ .closer :: rest) := by simp [Part.tokens, inParens]
    rw [hshape, Part.groups, lastFault?_cons]
    -- a fault inside decides; otherwise the group itself is the last one that can have a fault
    generalize lastFault? (groupsAll ps) = inside at hinside
    cases hinside with
    | faulty hgroup he hsound => exact (Diagnosis.faulty hgroup he hsound).append_left [.opener]
    | sound hsound =>
      have hhere := groupAt_zero ps rest
      cases hfault : fault ps with
      | some e =>
        refine .faulty hhere hfault fun j hj => ?_
        obtain ⟨k, rfl⟩ : ∃ k, j = k + 1 := ⟨j - 1, by omega⟩
        exact sound_cons.mpr (hsound k)
      | none =>
        refine .sound fun j => ?_
        cases j with
        | zero => exact sound_of_groupAt hhere hfault
        | succ j => exact sound_cons.mpr (hsound j)

/-- Parts in front of a text without faults have the last fault of their own groups. -/
theorem diagnosis_tokensAll : ∀ (ps : List Part) {rest : List Token}, (∀ j, Sound rest j) →
    Diagnosis (tokensAll ps ++ rest) (lastFault? (groupsAll ps))
  | [], rest, h => .sound h
  | p :: ps, rest, h => by
    have hback := diagnosis_tokensAll ps h
    rw [tokensAll, List.append_assoc, groupsAll, lastFault?_append]
    generalize lastFault? (groupsAll ps) = later at hback
    cases hback with
    | faulty hgroup he hsound => exact (Diagnosis.faulty hgroup he hsound).append_left p.tokens
    | sound hsound => exact p.diagnosis hsound

end

/-- An expression of parts fails with the last fault among its groups, and only then. -/
theorem parse_eq_error_iff_lastFault? {text : String} (htext : tokens text = tokensAll ps) :
    Condition.parse text = .error e ↔ lastFault? (Part.group ps).groups = some e := by
  have hnothing : ∀ j, Sound [] j := fun j => sound_of_ne_opener (by simp)
  have hdiagnosis : Diagnosis (inParens (tokensAll ps)) (lastFault? (Part.group ps).groups) := by
    simpa [Part.tokens] using (Part.group ps).diagnosis hnothing
  rw [parse_eq_iff_verdict, htext]
  generalize lastFault? (Part.group ps).groups = found at hdiagnosis
  cases hdiagnosis with
  | sound hsound =>
    -- a sound text has no faulty group that could be the reason of an error
    refine iff_of_false (fun h => ?_) (by simp)
    obtain ⟨i, qs, hgroup, he, -⟩ := verdict_inParens_error_iff.mp h
    exact hgroup.not_sound he (hsound i)
  | @faulty i qs e' hgroup he hsound =>
    have hverdict := Verdict.faulty hgroup he hsound
    -- a text has one verdict, so the fault found is the one reported
    constructor
    · intro h
      rw [Except.error.inj (hverdict.unique h)]
    · intro h
      rwa [← Option.some.inj h]

/-! ## Which error is told -/

/-- A balanced expression fails with the error of its malformed group that opens last, the whole
text counting as a group, and only then. What is wrong with a group does not depend on its
operands. -/
theorem parse_eq_error_iff :
    (∀ text, Balanced (tokens text) → ∀ e, Condition.parse text = .error e ↔
      ∃ i ps, GroupAt (inParens (tokens text)) i ps ∧ Malformed ps e ∧
        ∀ j qs, i < j → GroupAt (inParens (tokens text)) j qs → ∀ e', ¬ Malformed qs e') ∧
    ∀ (ps qs : List Part) e, ps.length = qs.length →
      (∀ k : Nat, k % 2 = 1 → ps[k]? = qs[k]?) → (Malformed ps e ↔ Malformed qs e) := by
  refine ⟨fun text h e => ?_, fun ps qs e hlen hjoiners => ?_⟩
  · -- a balanced text is one group, so its verdict is a matter of the groups in it
    obtain ⟨ps, hps⟩ := (balanced_iff (group_not_mem_tokens text)).mp h
    rw [parse_eq_iff_verdict, hps, verdict_inParens_error_iff]
    simp only [fault_eq_some_iff, fault_eq_none_iff_not_malformed]
  · exact ⟨.of_same_joiners hlen hjoiners,
      .of_same_joiners hlen.symm fun k hk => (hjoiners k hk).symm⟩

/-- Of a group with an even number of items and a later one that is joined by two groups, the later
one is reported; the two groups differ although they look the same. -/
theorem parse_of_groups_as_joiners :
    Balanced (tokens "(a b) || (p (q) r (q) s)") ∧
      Condition.parse "(a b) || (p (q) r (q) s)" = .error (.mixedOperators "(...)" "(...)") ∧
      (Malformed [.word "p", .word "^", .word "q"] (.unknownOperator "^") ↔
        Malformed [.group [], .word "^", .word "&&"] (.unknownOperator "^")) := by
  have hparts : tokens "(a b) || (p (q) r (q) s)" =
      tokensAll [.group [.word "a", .word "b"], .word "||",
        .group [.word "p", .group [.word "q"], .word "r", .group [.word "q"], .word "s"]] := by
    decide
  have hbalanced : Balanced (tokens "(a b) || (p (q) r (q) s)") :=
    hparts ▸ balanced_tokensAll _
  have hgroup : GroupAt (inParens (tokens "(a b) || (p (q) r (q) s)")) 6
      [.word "p", .group [.word "q"], .word "r", .group [.word "q"], .word "s"] :=
    ⟨[.closer], by decide⟩
  have hjoiners : ∀ k : Nat, k % 2 = 1 → [Part.word "p", .word "^", .word "q"][k]? =
      [Part.group [], .word "^", .word "&&"][k]? := by
    rintro (_ | _ | _ | k) hk
    · cases hk
    · rfl
    · cases hk
    · rfl
  refine ⟨hbalanced, (parse_eq_error_iff.1 _ hbalanced _).mpr
    ⟨6, _, hgroup, fault_eq_some_iff.mp (by decide), ?_⟩,
    parse_eq_error_iff.2 _ _ _ rfl hjoiners⟩
  -- only the two groups in joiner position open later, with one item each
  have hopeners : ∀ j < 18, 6 < j →
      (inParens (tokens "(a b) || (p (q) r (q) s)"))[j]? = some .opener → j = 8 ∨ j = 12 := by
    decide
  have hfirst : GroupAt (inParens (tokens "(a b) || (p (q) r (q) s)")) 8 [.word "q"] :=
    ⟨[.word "r", .opener, .word "q", .closer, .word "s", .closer, .closer], by decide⟩
  have hsecond : GroupAt (inParens (tokens "(a b) || (p (q) r (q) s)")) 12 [.word "q"] :=
    ⟨[.word "s", .closer, .closer], by decide⟩
  intro j qs hj hqs e'
  have hlt : j < 18 := (List.getElem?_eq_some_iff.mp hqs.opener).1
  rcases hopeners j hlt hj hqs.opener with rfl | rfl
  · obtain rfl := hqs.unique hfirst
    exact not_malformed_singleton
  · obtain rfl := hqs.unique hsecond
    exact not_malformed_singleton

end KeyRules.Expression
