import KeyRules.Proofs.Faults

/-!
# KeyRules — replacing a group

What stands around a group sees no more of it than its outcome. Whether the rest of the text is in
order or not, a group can be replaced by another one that has the same condition, or that fails with
the same error, and the whole expression gives the same condition or the same error as before. One
such group is the group in a second pair of parentheses.

* `Part.Like` — parts that cannot be told apart from outside, and what depends on nothing else.
* `tokensAll_swap` — a part of a text, read as a list of parts, replaced by a part like it.
* `Verdict.replace` — replacing a group by one with the same outcome.
* `verdict_inParens_group` — a group in parentheses has the outcome of the group.
* `parse_doubled` — doubled parentheses, anywhere in a text.
-/

namespace KeyRules.Expression

open KeyRules.Expression.Part (tokensAll)

/-! ## Parts that cannot be told apart -/

/-- The same word, or two groups with the same condition if they have one. -/
inductive Part.Like : Part → Part → Prop where
  | word (text : String) : Like (.word text) (.word text)
  | group {ps qs : List Part} (h : groupCondition? ps = groupCondition? qs) :
      Like (.group ps) (.group qs)

variable {p p' q q' joiner joiner' : Part} {ps ps' qs qs' others others' : List Part}
  {op : Operator}

theorem Part.Like.refl (p : Part) : p.Like p := by
  cases p with
  | word text => exact .word text
  | group ps => exact .group rfl

theorem Part.Like.symm (h : p.Like q) : q.Like p := by
  cases h with
  | word text => exact .word text
  | group h => exact .group h.symm

/-- Parts that are alike have the same condition, or both have none. -/
theorem Part.Like.condition?_eq (h : p.Like q) : p.condition? = q.condition? := by
  cases h with
  | word => rfl
  | group h => exact h

/-- They are shown alike in an error text. -/
theorem Part.Like.label_eq (h : p.Like q) : p.label = q.label := by
  cases h <;> rfl

theorem Part.Like.operator?_eq (h : p.Like q) : p.operator? = q.operator? := by
  cases h <;> rfl

/-- They differ from the same other parts. -/
theorem Part.Like.differs_eq (hp : p.Like p') (hq : q.Like q') : p.differs q = p'.differs q' := by
  cases hp <;> cases hq <;> rfl

theorem like_refl (ps : List Part) : List.Forall₂ Part.Like ps ps :=
  List.forall₂_same.mpr fun p _ => .refl p

/-- The first part that differs from a joiner stands at the same place and looks the same. -/
theorem find?_of_like (hjoiner : joiner.Like joiner')
    (h : List.Forall₂ Part.Like others others') :
    (others.find? joiner.differs).map Part.label =
      (others'.find? joiner'.differs).map Part.label := by
  induction h with
  | nil => rfl
  | @cons p p' others others' hp _ ih =>
    have hdiffers := hjoiner.differs_eq hp
    cases hp' : joiner'.differs p' with
    | true => simp [hdiffers, hp', hp.label_eq]
    | false => simpa [List.find?_cons, hdiffers, hp'] using ih

/-- Alike joiners have the same fault. -/
theorem joinerFault_of_like (hjoiner : joiner.Like joiner')
    (h : List.Forall₂ Part.Like others others') :
    joinerFault joiner others = joinerFault joiner' others' := by
  have hfind := find?_of_like hjoiner h
  cases hother' : others'.find? joiner'.differs with
  | none =>
    have hother : others.find? joiner.differs = none := by simpa [hother'] using hfind
    simp only [joinerFault, hother, hother', hjoiner.operator?_eq, hjoiner.label_eq]
  | some other' =>
    rw [hother', Option.map_some, Option.map_eq_some_iff] at hfind
    obtain ⟨other, hother, hlabel⟩ := hfind
    simp only [joinerFault, hother, hother', hjoiner.label_eq, hlabel]

/-- A group with a part replaced has the same fault. -/
theorem fault_of_like (h : List.Forall₂ Part.Like ps qs) : fault ps = fault qs := by
  rcases h with _ | ⟨_, _ | ⟨hjoiner, hrest⟩⟩
  · rfl
  · rfl
  · rw [fault, fault, hrest.length_eq, joinerFault_of_like hjoiner (forall₂_odds hrest)]

/-- Alike chains have the same conditions. -/
theorem termConditions?_of_like (h : List.Forall₂ Part.Like ps qs) :
    termConditions? op ps = termConditions? op qs := by
  -- an operand and the joiner behind it at a time
  induction ps using evens.induct generalizing qs with
  | case1 =>
    cases h
    rfl
  | case2 p =>
    rcases h with _ | ⟨hp, ⟨⟩⟩
    simp only [termConditions?, hp.condition?_eq]
  | case3 p joiner ps ih =>
    rcases h with _ | ⟨hp, _ | ⟨hjoiner, hps⟩⟩
    cases hjoiner with
    | word text => simp only [termConditions?, hp.condition?_eq, ih hps]
    | group => rfl

/-- A group with a part replaced has the same condition. -/
theorem groupCondition?_of_like (h : List.Forall₂ Part.Like ps qs) :
    groupCondition? ps = groupCondition? qs := by
  rcases h with _ | ⟨hp, _ | ⟨hjoiner, hps⟩⟩
  · rfl
  · exact hp.condition?_eq
  · cases hjoiner with
    | word text => simp only [groupCondition?, hp.condition?_eq, termConditions?_of_like hps]
    | group => rfl

/-! ## A part of a text replaced -/

/-- No part starts with a closing parenthesis. -/
theorem closer_ne_tokens {rest after : List Token} (p : Part) :
    .closer :: rest ≠ p.tokens ++ after :=
  fun h => not_ends_tokens p after (h ▸ ends_closer rest)

/-- Where the text of a list of parts has the tokens of a part in it, the list ends before them, or
they can be replaced by those of a part like it. -/
theorem tokensAll_swap (hlike : p.Like p') : ∀ (qs : List Part) {r before after : List Token},
    tokensAll qs ++ r = before ++ (p.tokens ++ after) →
    (∃ mid, before = tokensAll qs ++ mid) ∨
      ∃ qs', List.Forall₂ Part.Like qs qs' ∧ before ++ (p'.tokens ++ after) = tokensAll qs' ++ r
  | [], r, before, after, h => Or.inl ⟨before, rfl⟩
  | q :: qs, r, [], after, h => by
    -- the part to be replaced is the first one
    have hhead : q.tokens ++ (tokensAll qs ++ r) = p.tokens ++ after := by
      simpa [tokensAll] using h
    obtain ⟨rfl, rfl⟩ := Part.tokens_append_inj _ _ hhead
    exact Or.inr ⟨p' :: qs, .cons hlike (like_refl qs), by simp [tokensAll]⟩
  | .word text :: qs, r, t :: before, after, h => by
    obtain ⟨rfl, hrest⟩ : Token.word text = t ∧
        tokensAll qs ++ r = before ++ (p.tokens ++ after) := by
      simpa [tokensAll, Part.tokens] using h
    rcases tokensAll_swap hlike qs hrest with ⟨mid, rfl⟩ | ⟨qs', hqs, hswap⟩
    · exact Or.inl ⟨mid, by simp [tokensAll, Part.tokens]⟩
    · refine Or.inr ⟨.word text :: qs', .cons (.word text) hqs, ?_⟩
      simpa [tokensAll, Part.tokens] using hswap
  | .group inner :: qs, r, t :: before, after, h => by
    obtain ⟨rfl, hrest⟩ : Token.opener = t ∧ tokensAll inner ++ .closer :: (tokensAll qs ++ r) =
        before ++ (p.tokens ++ after) := by
      simpa [tokensAll, Part.tokens, inParens] using h
    rcases tokensAll_swap hlike inner hrest with ⟨mid, rfl⟩ | ⟨inner', hinner, hswap⟩
    · rw [List.append_assoc, List.append_cancel_left_eq] at hrest
      cases mid with
      | nil => exact absurd hrest (closer_ne_tokens p)
      | cons u mid =>
        obtain ⟨rfl, hqs⟩ : Token.closer = u ∧
            tokensAll qs ++ r = mid ++ (p.tokens ++ after) := by
          simpa using hrest
        rcases tokensAll_swap hlike qs hqs with ⟨mid', rfl⟩ | ⟨qs', hlikes, hswap⟩
        · exact Or.inl ⟨mid', by simp [tokensAll, Part.tokens, inParens]⟩
        · refine Or.inr ⟨.group inner :: qs', .cons (.refl _) hlikes, ?_⟩
          simpa [tokensAll, Part.tokens, inParens] using hswap
    · refine Or.inr ⟨.group inner' :: qs,
        .cons (.group (groupCondition?_of_like hinner)) (like_refl qs), ?_⟩
      simpa [tokensAll, Part.tokens, inParens] using hswap

variable {before after : List Token} {i j : Nat} {r s : Outcome} {c : Condition} {e : Error}

/-- A group that opens before the part stays a group, with parts like the ones it had. -/
theorem GroupAt.swap (hlike : p.Like p') (hi : i < before.length)
    (h : GroupAt (before ++ (p.tokens ++ after)) i qs) :
    ∃ qs', List.Forall₂ Part.Like qs qs' ∧ GroupAt (before ++ (p'.tokens ++ after)) i qs' := by
  obtain ⟨rest, hdrop⟩ := h
  obtain ⟨t, front, hfront⟩ : ∃ t front, before.drop i = t :: front :=
    ⟨_, _, List.drop_eq_getElem_cons hi⟩
  have hdrop' (ts : List Token) : (before ++ ts).drop i = t :: (front ++ ts) := by
    rw [List.drop_append_of_le_length (by omega), hfront, List.cons_append]
  rw [hdrop'] at hdrop
  obtain ⟨rfl, hinside⟩ := List.cons.inj hdrop
  rcases tokensAll_swap hlike qs hinside.symm with ⟨mid, rfl⟩ | ⟨qs', hqs, hswap⟩
  · rw [List.append_assoc, List.append_cancel_left_eq] at hinside
    -- the group ends in front of the part, so it is the same one
    cases mid with
    | nil => exact absurd hinside.symm (closer_ne_tokens p)
    | cons u mid =>
      obtain ⟨rfl, -⟩ := List.cons.inj hinside
      exact ⟨qs, like_refl qs, mid ++ (p'.tokens ++ after), by rw [hdrop']; simp⟩
  · -- the part is inside of the group, whose parts change with it
    exact ⟨qs', hqs, rest, by rw [hdrop', hswap]⟩

/-- A parenthesis in front of the replaced part stays unclosed. -/
theorem Unclosed.swap (hlike : p.Like p') (hi : i < before.length)
    (h : Unclosed (before ++ (p.tokens ++ after)) i) :
    Unclosed (before ++ (p'.tokens ++ after)) i := by
  refine ⟨?_, fun qs' hqs' => ?_⟩
  · rw [← h.1, List.getElem?_append_left hi, List.getElem?_append_left hi]
  · obtain ⟨qs, -, hqs⟩ := hqs'.swap hlike.symm hi
    exact h.2 qs hqs

/-- A place in front of the replaced part stays sound. -/
theorem Sound.swap (hlike : p.Like p') (hi : i < before.length)
    (h : Sound (before ++ (p.tokens ++ after)) i) : Sound (before ++ (p'.tokens ++ after)) i := by
  refine ⟨fun hopen => h.1 (hopen.swap hlike.symm hi), fun qs' hqs' => ?_⟩
  obtain ⟨qs, hlikes, hqs⟩ := hqs'.swap hlike.symm hi
  rw [fault_of_like hlikes]
  exact h.2 qs hqs

/-- A text that is one group stays one group with the same condition. -/
theorem inParens_swap (hlike : p.Like p')
    (h : before ++ (p.tokens ++ after) = inParens (tokensAll qs)) :
    ∃ qs', groupCondition? qs = groupCondition? qs' ∧
      before ++ (p'.tokens ++ after) = inParens (tokensAll qs') := by
  have hwhole : tokensAll [.group qs] ++ [] = before ++ (p.tokens ++ after) := by
    rw [h, List.append_nil, inParens_eq_tokensAll]
  rcases tokensAll_swap hlike [.group qs] hwhole with ⟨mid, rfl⟩ | ⟨_, hlikes, hswap⟩
  · -- behind the whole text there is no part
    rw [List.append_assoc, List.append_cancel_left_eq] at hwhole
    cases p <;> simp [Part.tokens, inParens] at hwhole
  · rcases hlikes with _ | ⟨⟨⟩ | hcondition, ⟨⟩⟩
    exact ⟨_, hcondition, by simpa [tokensAll, inParens_eq_tokens] using hswap⟩

/-! ## What decides -/

/-- A place in a part is sound when it is in the part alone, and a place behind it when what follows
is sound. -/
theorem sound_part_append (hin : Sound p.tokens j) (hafter : ∀ k, Sound after k) :
    Sound (p.tokens ++ after) j := by
  rcases Nat.lt_or_ge j p.tokens.length with hlt | hge
  · by_cases hopener : (p.tokens ++ after)[j]? = some .opener
    · obtain ⟨qs, -, hgroup, -⟩ := p.opener_inside after hlt hopener
      -- the group ends inside the part, so that it is the same without what follows
      have halone : (p.tokens ++ [])[j]? = some .opener := by
        rw [← hopener, List.getElem?_append_left hlt, List.getElem?_append_left hlt]
      obtain ⟨qs', -, hgroup', -⟩ := p.opener_inside [] hlt halone
      rw [List.append_nil] at hgroup'
      obtain rfl := (hgroup'.append_right after).unique hgroup
      exact sound_of_groupAt hgroup (hin.2 qs' hgroup')
    · exact sound_of_ne_opener hopener
  · obtain ⟨k, rfl⟩ := Nat.exists_eq_add_of_le hge
    exact sound_append.mpr (hafter k)

/-- When something is wrong in the back of a text, the front does not matter. -/
theorem Verdict.of_back {front front' back : List Token} (h : Verdict (front ++ back) r)
    (hback : ¬ ∀ j, Sound back j) : Verdict (front' ++ back) r := by
  obtain ⟨k, hk⟩ := not_forall.mp hback
  have hbad : ¬ Sound (front ++ back) (front.length + k) := fun hsound =>
    hk (sound_append.mp hsound)
  -- what decides stands at the last place that is not sound, so not in front of that one
  have hplace : ∀ {i}, (∀ j, i < j → Sound (front ++ back) j) → front.length ≤ i := by
    intro i hsound
    by_contra hlt
    exact hbad (hsound _ (by omega))
  have hmove : ∀ {m}, (∀ j, front.length + m < j → Sound (front ++ back) j) →
      ∀ j, front'.length + m < j → Sound (front' ++ back) j := by
    intro m hsound j hj
    obtain ⟨n, rfl⟩ : ∃ n, j = front'.length + n := ⟨j - front'.length, by omega⟩
    exact sound_append.mpr (sound_append.mp (hsound (front.length + n) (by omega)))
  cases h with
  | faulty hgroup he hsound =>
    obtain ⟨m, rfl⟩ := Nat.exists_eq_add_of_le (hplace hsound)
    exact .faulty (groupAt_append.mpr (groupAt_append.mp hgroup)) he (hmove hsound)
  | @unclosed u i qs c hopen hsound hfirst hc =>
    obtain ⟨m, rfl⟩ := Nat.exists_eq_add_of_le (hplace hsound)
    have hafter := hfirst.after
    obtain ⟨n, rfl⟩ : ∃ n, i = front.length + n := ⟨i - front.length, by omega⟩
    refine .unclosed (unclosed_append.mpr (unclosed_append.mp hopen)) (hmove hsound)
      ⟨by omega, groupAt_append.mpr (groupAt_append.mp hfirst.group), fun j qs hj hqs => ?_⟩ hc
    obtain ⟨l, rfl⟩ : ∃ l, j = front'.length + l := ⟨j - front'.length, by omega⟩
    have hle := hfirst.first (front.length + l) qs (by omega)
      (groupAt_append.mpr (groupAt_append.mp hqs))
    omega
  | whole hts hc => exact absurd (hts ▸ sound_of_condition hc _) hbad
  | scattered hsound => exact absurd (hsound _) hbad

/-- A fault in a group decides when everything behind the group is in order. -/
theorem verdict_of_fault_inside (h : Verdict (Part.group ps).tokens (.error e))
    (hafter : ∀ j, Sound after j) :
    Verdict (before ++ ((Part.group ps).tokens ++ after)) (.error e) := by
  obtain ⟨i, qs, hgroup, he, hlast⟩ := verdict_inParens_error_iff.mp h
  refine .faulty (groupAt_append.mpr (hgroup.append_right after)) he fun j hj => ?_
  obtain ⟨k, rfl⟩ : ∃ k, j = before.length + k := ⟨j - before.length, by omega⟩
  have hin : Sound (Part.group ps).tokens k :=
    ⟨not_unclosed_inParens ps k, fun qs' hqs' => hlast k qs' (by omega) hqs'⟩
  exact sound_append.mpr (sound_part_append hin hafter)

/-- With everything in order from the part on, a part like it makes no difference. -/
theorem Verdict.swap (h : Verdict (before ++ (p.tokens ++ after)) r) (hlike : p.Like p')
    (hp : ∀ j, Sound (p.tokens ++ after) j) (hp' : ∀ j, Sound (p'.tokens ++ after) j) :
    Verdict (before ++ (p'.tokens ++ after)) r := by
  -- so what decides stands in front of the part
  have hplace : ∀ {i}, ¬ Sound (before ++ (p.tokens ++ after)) i → i < before.length := by
    intro i hbad
    by_contra hge
    obtain ⟨k, rfl⟩ := Nat.exists_eq_add_of_le (Nat.le_of_not_lt hge)
    exact hbad (sound_append.mpr (hp k))
  have hmove : ∀ {i}, Sound (before ++ (p.tokens ++ after)) i →
      Sound (before ++ (p'.tokens ++ after)) i := by
    intro i hsound
    rcases Nat.lt_or_ge i before.length with hlt | hge
    · exact hsound.swap hlike hlt
    · obtain ⟨k, rfl⟩ := Nat.exists_eq_add_of_le hge
      exact sound_append.mpr (hp' k)
  cases hlike with
  | word text => exact h
  | @group ps ps' hcondition =>
    have hlike : (Part.group ps).Like (.group ps') := .group hcondition
    have hhere (qs : List Part) :
        GroupAt (before ++ ((Part.group qs).tokens ++ after)) before.length qs := by
      have hgroup : GroupAt ((Part.group qs).tokens ++ after) 0 qs := by
        simpa [Part.tokens, inParens] using groupAt_zero qs after
      exact groupAt_append.mpr hgroup
    cases h with
    | faulty hgroup he hsound =>
      obtain ⟨qs', hlikes, hgroup'⟩ := hgroup.swap hlike (hplace (hgroup.not_sound he))
      refine .faulty hgroup' ?_ fun j hj => hmove (hsound j hj)
      rw [← fault_of_like hlikes, he]
    | @unclosed u i qs c hopen hsound hfirst hc =>
      have hu := hplace hopen.not_sound
      have hi : i ≤ before.length := hfirst.first _ ps hu (hhere ps)
      -- no group opens between the unclosed parenthesis and the first one
      have hnone : ∀ j qs', u < j → j < i →
          ¬ GroupAt (before ++ ((Part.group ps').tokens ++ after)) j qs' := by
        intro j qs' hj hji hqs'
        obtain ⟨qs, -, hqs⟩ := hqs'.swap hlike.symm (by omega)
        have := hfirst.first j qs hj hqs
        omega
      have hsound' := fun j hj => hmove (hsound j hj)
      rcases Nat.lt_or_eq_of_le hi with hlt | rfl
      · obtain ⟨qs', hlikes, hgroup'⟩ := hfirst.group.swap hlike hlt
        rw [groupCondition?_of_like hlikes] at hc
        refine .unclosed (hopen.swap hlike hu) hsound' ⟨hfirst.after, hgroup', ?_⟩ hc
        intro j qs'' hj hqs''
        exact Nat.le_of_not_lt fun hji => hnone j qs'' hj hji hqs''
      · -- the group itself is the first one
        obtain rfl := hfirst.group.unique (hhere ps)
        rw [hcondition] at hc
        refine .unclosed (hopen.swap hlike hu) hsound' ⟨hu, hhere ps', ?_⟩ hc
        intro j qs'' hj hqs''
        exact Nat.le_of_not_lt fun hji => hnone j qs'' hj hji hqs''
    | whole hts hc =>
      obtain ⟨qs', hcondition', hts'⟩ := inParens_swap hlike hts
      exact .whole hts' (hcondition' ▸ hc)
    | scattered hsound hts =>
      refine .scattered (fun j => hmove (hsound j)) fun qs' hts' => ?_
      obtain ⟨qs, -, hqs⟩ := inParens_swap hlike.symm hts'
      exact hts qs hqs

/-! ## A group replaced -/

/-- A group in parentheses of its own has the outcome of the group. -/
theorem verdict_inParens_group (h : Verdict (inParens (tokensAll ps)) r) :
    Verdict (inParens (tokensAll [.group ps])) r := by
  cases r with
  | ok c =>
    have hc : groupCondition? ps = some c := verdict_inParens_ok_iff.mp h
    exact verdict_inParens_ok_iff.mpr hc
  | error e =>
    have hlast : ∀ j, Sound [.closer] j := fun j => sound_of_ne_opener (by cases j <;> simp)
    have hinside : Verdict ([.opener] ++ ((Part.group ps).tokens ++ [.closer])) (.error e) :=
      verdict_of_fault_inside h hlast
    simpa [inParens, tokensAll, inParens_eq_tokens] using hinside

/-- A group with the same outcome makes no difference to the text around it. -/
theorem Verdict.replace (h : Verdict (before ++ ((Part.group ps).tokens ++ after)) r)
    (hps : Verdict (Part.group ps).tokens s) (hps' : Verdict (Part.group ps').tokens s) :
    Verdict (before ++ ((Part.group ps').tokens ++ after)) r := by
  by_cases hafter : ∀ j, Sound after j
  · -- a faulty group behind which all is sound decides; otherwise the two are alike
    cases s with
    | error e =>
      obtain rfl := h.unique (verdict_of_fault_inside hps hafter)
      exact verdict_of_fault_inside hps' hafter
    | ok c =>
      have hc : groupCondition? ps = some c := verdict_inParens_ok_iff.mp hps
      have hc' : groupCondition? ps' = some c := verdict_inParens_ok_iff.mp hps'
      exact h.swap (.group (hc.trans hc'.symm))
        (fun j => sound_part_append (sound_of_condition hc j) hafter)
        (fun j => sound_part_append (sound_of_condition hc' j) hafter)
  · -- neither group is reached
    rw [← List.append_assoc] at h ⊢
    exact h.of_back hafter

/-- An expression in parentheses can be replaced by one with the same outcome, anywhere. -/
theorem parse_replaced {text text' : String} (h : Balanced (tokens text))
    (h' : Balanced (tokens text')) (hsame : Condition.parse text = Condition.parse text')
    (front back : String) : Condition.parse (front ++ "(" ++ text ++ ")" ++ back) =
      Condition.parse (front ++ "(" ++ text' ++ ")" ++ back) := by
  obtain ⟨ps, hps⟩ := (balanced_iff (group_not_mem_tokens text)).mp h
  obtain ⟨ps', hps'⟩ := (balanced_iff (group_not_mem_tokens text')).mp h'
  have hverdict := parse_eq_iff_verdict.mp hsame
  have hverdict' := parse_eq_iff_verdict.mp (Eq.refl (Condition.parse text'))
  rw [hps] at hverdict
  rw [hps'] at hverdict'
  -- the parentheses of the whole text stand around what is in front of the group and behind it
  have hshape (text : String) : inParens (tokens (front ++ "(" ++ text ++ ")" ++ back)) =
      (.opener :: tokens front) ++ (inParens (tokens text) ++ (tokens back ++ [.closer])) := by
    rw [tokens_parenthesized]
    simp [inParens]
  have hwhole := parse_eq_iff_verdict.mp
    (Eq.refl (Condition.parse (front ++ "(" ++ text' ++ ")" ++ back)))
  rw [hshape, hps'] at hwhole
  rw [parse_eq_iff_verdict, hshape, hps]
  exact hwhole.replace hverdict' hverdict

/-! ## Doubled parentheses -/

/-- A balanced text stays in balance in parentheses. -/
theorem balanced_inParens {text : String} (h : Balanced (tokens text)) :
    Balanced (tokens ("(" ++ text ++ ")")) := by
  obtain ⟨ps, hps⟩ := (balanced_iff (group_not_mem_tokens text)).mp h
  rw [tokens_inParens, hps, inParens_eq_tokensAll]
  exact balanced_tokensAll _

/-- Parentheses around a balanced expression change nothing. -/
theorem parse_inParens {text : String} (h : Balanced (tokens text)) :
    Condition.parse ("(" ++ text ++ ")") = Condition.parse text := by
  obtain ⟨ps, hps⟩ := (balanced_iff (group_not_mem_tokens text)).mp h
  have hverdict := parse_eq_iff_verdict.mp (Eq.refl (Condition.parse text))
  rw [hps] at hverdict
  rw [parse_eq_iff_verdict, tokens_inParens, hps, inParens_eq_tokensAll]
  exact verdict_inParens_group hverdict

/-- A second pair of parentheses around a balanced expression changes nothing, whatever stands in
front of the first pair and behind it; and neither does any number of pairs around the whole. -/
theorem parse_doubled :
    (∀ front text back : String, Balanced (tokens text) →
      Condition.parse (front ++ "((" ++ text ++ "))" ++ back) =
        Condition.parse (front ++ "(" ++ text ++ ")" ++ back)) ∧
    ∀ (n : Nat) (text : String), Balanced (tokens text) →
      Condition.parse (String.ofList (List.replicate n '(') ++ text ++
        String.ofList (List.replicate n ')')) = Condition.parse text := by
  constructor
  · intro front text back h
    have hdouble : front ++ "((" ++ text ++ "))" ++ back =
        front ++ "(" ++ ("(" ++ text ++ ")") ++ ")" ++ back := by
      rw [show "((" = "(" ++ "(" from rfl, show "))" = ")" ++ ")" from rfl]
      simp only [String.append_assoc]
    rw [hdouble]
    exact parse_replaced (balanced_inParens h) h (parse_inParens h) front back
  · intro n
    -- the innermost pair belongs to the expression that the other pairs stand around
    induction n with
    | zero => intro text _; simp
    | succ n ih =>
      intro text h
      have hinner : String.ofList (List.replicate (n + 1) '(') ++ text ++
          String.ofList (List.replicate (n + 1) ')') =
          String.ofList (List.replicate n '(') ++ ("(" ++ text ++ ")") ++
            String.ofList (List.replicate n ')') := by
        have hopeners : List.replicate (n + 1) '(' = List.replicate n '(' ++ ['('] :=
          List.replicate_succ'
        rw [← String.toList_inj]
        simp [hopeners, List.replicate_succ]
      rw [hinner, ih _ (balanced_inParens h), parse_inParens h]

/-- A stray parenthesis in front, a fault inside and an unclosed parenthesis behind, with one pair of
parentheses and with two. -/
theorem parse_doubled_between_faults :
    Balanced (tokens "b && (c d)") ∧
      Condition.parse "a) || ((b && (c d))) && (e" =
        Condition.parse "a) || (b && (c d)) && (e" ∧
      Condition.parse "(((b && (c d))))" = Condition.parse "b && (c d)" := by
  have hparts : tokens "b && (c d)" =
      tokensAll [.word "b", .word "&&", .group [.word "c", .word "d"]] := by decide
  have hbalanced : Balanced (tokens "b && (c d)") := hparts ▸ balanced_tokensAll _
  have hdoubled : "a) || ((b && (c d))) && (e" =
      "a) || " ++ "((" ++ "b && (c d)" ++ "))" ++ " && (e" := by decide
  have hsingle : "a) || (b && (c d)) && (e" =
      "a) || " ++ "(" ++ "b && (c d)" ++ ")" ++ " && (e" := by decide
  have hwhole : "(((b && (c d))))" = String.ofList (List.replicate 3 '(') ++ "b && (c d)" ++
      String.ofList (List.replicate 3 ')') := by decide
  refine ⟨hbalanced, ?_, ?_⟩
  · rw [hdoubled, hsingle]
    exact parse_doubled.1 "a) || " "b && (c d)" " && (e" hbalanced
  · rw [hwhole]
    exact parse_doubled.2 3 "b && (c d)" hbalanced

end KeyRules.Expression
