import KeyRules.Expression.Token
import Mathlib.Data.List.Basic

/-!
# KeyRules — how parentheses nest

A closing parenthesis closes the nearest open one before it. This module says what that means for
any token list, without a look at how expressions are compiled. A **part** is a word or a group
with all that stands in it, and a text without open ends is the tokens of a list of parts. In any
other text some parenthesis has no partner: it is **unclosed** or **stray**.

* `Part` — words and whole groups, with their tokens.
* `GroupAt` — the group that opens at some place, with what it holds.
* `Unclosed`, `Stray`, `Balanced` — parentheses without partners, and texts that have none.
* `tokensAll_append_inj` — the tokens of parts can be read in one way only.
* `closed_or_unclosed` — a text consists of balanced stretches with stray closing parentheses
  between them, or it has an unclosed opening one with balanced text after it.
* `balanced_iff` — balanced texts are the tokens of lists of parts.
* `exists_of_stray` — balanced text stands before the first stray closing parenthesis.
* `unclosed_inParens_zero`, `unclosed_inParens_succ` — what stays unclosed in a text that is put in
  parentheses: the last one closes the last unclosed one.
-/

namespace KeyRules.Expression

/-- A word of an expression, or a group with all that stands in it. -/
inductive Part where
  /-- A word. -/
  | word (text : String)
  /-- What stands between two parentheses. -/
  | group (parts : List Part)
  deriving Repr

namespace Part

mutual

/-- The tokens of a part. -/
def tokens : Part → List Token
  | word text => [.word text]
  | group parts => inParens (tokensAll parts)

/-- The tokens of several parts. -/
def tokensAll : List Part → List Token
  | [] => []
  | p :: ps => p.tokens ++ tokensAll ps

end

mutual

/-- What the groups in a part hold, in the order in which the groups open. -/
def groups : Part → List (List Part)
  | word _ => []
  | group parts => parts :: groupsAll parts

/-- What the groups in several parts hold. -/
def groupsAll : List Part → List (List Part)
  | [] => []
  | p :: ps => p.groups ++ groupsAll ps

end

end Part

open KeyRules.Expression.Part (tokensAll groupsAll)

/-! ## Reading parts -/

/-- A place at which a list of parts ends: the end of the text or a closing parenthesis. -/
def Ends (rest : List Token) : Prop :=
  ∀ t ∈ rest.head?, t = .closer

theorem ends_nil : Ends [] := by
  simp [Ends]

theorem ends_closer (rest : List Token) : Ends (.closer :: rest) := by
  simp [Ends]

/-- No list of parts ends where another part starts. -/
theorem not_ends_tokens (p : Part) (rest : List Token) : ¬ Ends (p.tokens ++ rest) := by
  cases p <;> simp [Ends, Part.tokens, inParens]

mutual

/-- A part is read in one way only, whatever follows it. So a place has one group at most. -/
theorem Part.tokens_append_inj : ∀ (p q : Part) {r s : List Token},
    p.tokens ++ r = q.tokens ++ s → p = q ∧ r = s
  | .word a, .word b, r, s, h => by
    simpa [Part.tokens, inParens] using h
  | .word a, .group qs, r, s, h => by
    simp [Part.tokens, inParens] at h
  | .group ps, .word b, r, s, h => by
    simp [Part.tokens, inParens] at h
  | .group ps, .group qs, r, s, h => by
    have hin : tokensAll ps ++ .closer :: r = tokensAll qs ++ .closer :: s := by
      simpa [Part.tokens, inParens] using h
    -- both lists of parts end at the closer, so they are equal
    obtain ⟨hparts, hrest⟩ := tokensAll_append_inj ps qs (ends_closer r) (ends_closer s) hin
    simpa [hparts] using hrest

/-- A list of parts is read in one way only, up to a place where such a list ends. -/
theorem tokensAll_append_inj : ∀ (ps qs : List Part) {r s : List Token},
    Ends r → Ends s → tokensAll ps ++ r = tokensAll qs ++ s → ps = qs ∧ r = s
  | [], [], r, s, _, _, h => by
    simpa [tokensAll] using h
  | [], q :: qs, r, s, hr, _, h => by
    have hstart : r = q.tokens ++ (tokensAll qs ++ s) := by simpa [tokensAll] using h
    exact absurd (hstart ▸ hr) (not_ends_tokens q _)
  -- a part that is left over would start where a list of parts ends
  | p :: ps, [], r, s, _, hs, h => by
    have hstart : s = p.tokens ++ (tokensAll ps ++ r) := by simpa [tokensAll] using h.symm
    exact absurd (hstart ▸ hs) (not_ends_tokens p _)
  | p :: ps, q :: qs, r, s, hr, hs, h => by
    simp only [tokensAll, List.append_assoc] at h
    obtain ⟨rfl, hrest⟩ := Part.tokens_append_inj p q h
    obtain ⟨rfl, hend⟩ := tokensAll_append_inj ps qs hr hs hrest
    exact ⟨rfl, hend⟩

end

/-- Different parts have different texts. -/
theorem tokensAll_injective {ps qs : List Part} (h : tokensAll ps = tokensAll qs) : ps = qs := by
  have hin : tokensAll ps ++ [] = tokensAll qs ++ [] := by rw [h]
  exact (tokensAll_append_inj ps qs ends_nil ends_nil hin).1

theorem inParens_injective {ps qs : List Part}
    (h : inParens (tokensAll ps) = inParens (tokensAll qs)) : ps = qs := by
  have htokens : tokensAll ps = tokensAll qs := by simpa [inParens] using h
  exact tokensAll_injective htokens

theorem inParens_eq_tokens (ps : List Part) : inParens (tokensAll ps) = (Part.group ps).tokens :=
  rfl

theorem inParens_eq_tokensAll (ps : List Part) :
    inParens (tokensAll ps) = tokensAll [.group ps] := by
  simp [tokensAll, inParens_eq_tokens]

/-! ## Groups by place -/

/-- A group with the given parts opens at a place of a token list. -/
def GroupAt (ts : List Token) (i : Nat) (ps : List Part) : Prop :=
  ∃ rest, ts.drop i = .opener :: (tokensAll ps ++ .closer :: rest)

/-- The opening parenthesis at a place is never closed. -/
def Unclosed (ts : List Token) (i : Nat) : Prop :=
  ts[i]? = some .opener ∧ ∀ ps, ¬ GroupAt ts i ps

/-- The closing parenthesis at a place closes no group. -/
def Stray (ts : List Token) (j : Nat) : Prop :=
  ts[j]? = some .closer ∧ ∀ i ps, GroupAt ts i ps → i + (tokensAll ps).length + 1 ≠ j

/-- Every parenthesis has a partner. -/
def Balanced (ts : List Token) : Prop :=
  (∀ i, ¬ Unclosed ts i) ∧ ∀ j, ¬ Stray ts j

variable {ts us : List Token} {i j : Nat} {ps qs : List Part}

/-- A group starts at an opening parenthesis. -/
theorem GroupAt.opener (h : GroupAt ts i ps) : ts[i]? = some .opener := by
  obtain ⟨rest, hdrop⟩ := h
  rw [← List.head?_drop, hdrop]
  rfl

/-- Only one group starts at a place, since its closing parenthesis is the partner of its opening
one. -/
theorem GroupAt.unique (hp : GroupAt ts i ps) (hq : GroupAt ts i qs) : ps = qs := by
  obtain ⟨rest, hdrop⟩ := hp
  obtain ⟨rest', hdrop'⟩ := hq
  have hin : tokensAll ps ++ .closer :: rest = tokensAll qs ++ .closer :: rest' := by
    simpa using hdrop.symm.trans hdrop'
  exact (tokensAll_append_inj ps qs (ends_closer _) (ends_closer _) hin).1

/-- Text in front moves the places of groups and changes nothing else: a group is known from its
opening parenthesis on. -/
theorem groupAt_append : GroupAt (us ++ ts) (us.length + i) ps ↔ GroupAt ts i ps := by
  simp [GroupAt]

theorem groupAt_cons {t : Token} : GroupAt (t :: ts) (i + 1) ps ↔ GroupAt ts i ps :=
  Iff.rfl

theorem groupAt_zero (ps : List Part) (rest : List Token) :
    GroupAt (.opener :: (tokensAll ps ++ .closer :: rest)) 0 ps :=
  ⟨rest, rfl⟩

/-- More text at the end leaves a group as it is. -/
theorem GroupAt.append_right (h : GroupAt ts i ps) (us : List Token) :
    GroupAt (ts ++ us) i ps := by
  obtain ⟨rest, hdrop⟩ := h
  have hlt : i < ts.length := by
    by_contra hge
    simp [List.drop_of_length_le (Nat.le_of_not_lt hge)] at hdrop
  exact ⟨rest ++ us, by simp [List.drop_append_of_le_length (Nat.le_of_lt hlt), hdrop]⟩

/-- Text in front neither closes a parenthesis nor opens one. -/
theorem unclosed_append : Unclosed (us ++ ts) (us.length + i) ↔ Unclosed ts i := by
  rw [Unclosed, Unclosed, List.getElem?_append_right (by omega), Nat.add_sub_cancel_left]
  simp only [groupAt_append]

theorem unclosed_append_length : Unclosed (us ++ ts) us.length ↔ Unclosed ts 0 :=
  unclosed_append (i := 0)

theorem unclosed_cons {t : Token} : Unclosed (t :: ts) (i + 1) ↔ Unclosed ts i := by
  simp [Unclosed, groupAt_cons]

/-- What stands up to a token does not matter for what is unclosed behind the token. -/
theorem unclosed_behind {t : Token} :
    Unclosed (us ++ t :: ts) (us.length + i + 1) ↔ Unclosed ts i := by
  rw [Nat.add_assoc, unclosed_append, unclosed_cons]

/-- A parenthesis that nothing closes stays unclosed when the text behind is left out. -/
theorem Unclosed.of_append_right (h : Unclosed (ts ++ us) i) (hi : i < ts.length) :
    Unclosed ts i := by
  refine ⟨?_, fun ps hg => h.2 ps (hg.append_right us)⟩
  rw [← h.1, List.getElem?_append_left hi]

/-- An opening parenthesis without any closing one behind it is unclosed. -/
theorem unclosed_of_not_mem (h : ts[i]? = some .opener) (hcloser : .closer ∉ ts.drop i) :
    Unclosed ts i := by
  refine ⟨h, ?_⟩
  rintro ps ⟨rest, hdrop⟩
  simp [hdrop] at hcloser

/-- An opening parenthesis before balanced text is unclosed when nothing comes after the text. -/
theorem unclosed_before_parts (ps : List Part) : Unclosed (.opener :: tokensAll ps) 0 := by
  refine ⟨rfl, ?_⟩
  rintro qs ⟨rest, hdrop⟩
  have hin : tokensAll ps ++ [] = tokensAll qs ++ .closer :: rest := by simpa using hdrop
  exact absurd (tokensAll_append_inj ps qs ends_nil (ends_closer rest) hin).2 (by simp)

private theorem exists_split {t : Token} (h : ts[i]? = some t) :
    ∃ before after, ts = before ++ t :: after ∧ before.length = i := by
  obtain ⟨hi, rfl⟩ := List.getElem?_eq_some_iff.mp h
  refine ⟨ts.take i, ts.drop (i + 1), ?_, by simp; omega⟩
  rw [List.getElem_cons_drop, List.take_append_drop]

/-! ## Inside a list of parts -/

mutual

/-- An opening parenthesis inside a part opens one of its groups, which also ends inside. -/
theorem Part.opener_inside : ∀ (p : Part) (r : List Token) {i : Nat}, i < p.tokens.length →
    (p.tokens ++ r)[i]? = some .opener →
    ∃ qs ∈ p.groups, GroupAt (p.tokens ++ r) i qs ∧
      i + (tokensAll qs).length + 1 < p.tokens.length
  | .word a, r, i, hi, h => by
    simp [Part.tokens] at hi
    simp [Part.tokens, hi] at h
  | .group ps, r, 0, hi, h => by
    refine ⟨ps, by simp [Part.groups], ?_, by simp [Part.tokens, inParens]⟩
    simpa [Part.tokens, inParens] using groupAt_zero ps r
  | .group ps, r, i + 1, hi, h => by
    have hshape : (Part.group ps).tokens ++ r =
        .opener :: (tokensAll ps ++ .closer :: r) := by simp [Part.tokens, inParens]
    have hlen : (Part.group ps).tokens.length = (tokensAll ps).length + 2 := by
      simp [Part.tokens, inParens]
    rw [hshape, List.getElem?_cons_succ] at h
    -- the last token of the part is a closing one
    have hlt : i < (tokensAll ps).length := by
      by_contra hge
      have hi' : i = (tokensAll ps).length := by omega
      simp [hi'] at h
    obtain ⟨qs, hmem, hgroup, hend⟩ := opener_inside ps (.closer :: r) hlt h
    refine ⟨qs, by simp [Part.groups, hmem], ?_, by omega⟩
    rw [hshape]
    exact groupAt_cons.mpr hgroup

/-- An opening parenthesis in the tokens of parts opens one of their groups, and that group ends
before the parts do. -/
theorem opener_inside : ∀ (ps : List Part) (r : List Token) {i : Nat},
    i < (tokensAll ps).length → (tokensAll ps ++ r)[i]? = some .opener →
    ∃ qs ∈ groupsAll ps, GroupAt (tokensAll ps ++ r) i qs ∧
      i + (tokensAll qs).length + 1 < (tokensAll ps).length
  | [], r, i, hi, h => by
    simp [tokensAll] at hi
  | p :: ps, r, i, hi, h => by
    simp only [tokensAll, List.length_append, List.append_assoc] at hi h ⊢
    -- the opener is in the first part or in those behind it
    rcases Nat.lt_or_ge i p.tokens.length with hlt | hge
    · obtain ⟨qs, hmem, hgroup, hend⟩ := Part.opener_inside p (tokensAll ps ++ r) hlt h
      exact ⟨qs, by simp [groupsAll, hmem], hgroup, by omega⟩
    · obtain ⟨k, rfl⟩ := Nat.exists_eq_add_of_le hge
      rw [List.getElem?_append_right (by omega), Nat.add_sub_cancel_left] at h
      obtain ⟨qs, hmem, hgroup, hend⟩ := opener_inside ps r (by omega) h
      exact ⟨qs, by simp [groupsAll, hmem], groupAt_append.mpr hgroup, by omega⟩

end

mutual

/-- A closing parenthesis inside a part closes one of its groups. -/
theorem Part.closer_inside : ∀ (p : Part) (r : List Token) {j : Nat}, j < p.tokens.length →
    (p.tokens ++ r)[j]? = some .closer →
    ∃ i qs, GroupAt (p.tokens ++ r) i qs ∧ i + (tokensAll qs).length + 1 = j
  | .word a, r, j, hj, h => by
    simp [Part.tokens] at hj
    simp [Part.tokens, hj] at h
  | .group ps, r, 0, hj, h => by
    simp [Part.tokens, inParens] at h
  | .group ps, r, j + 1, hj, h => by
    have hshape : (Part.group ps).tokens ++ r =
        .opener :: (tokensAll ps ++ .closer :: r) := by simp [Part.tokens, inParens]
    have hlen : (Part.group ps).tokens.length = (tokensAll ps).length + 2 := by
      simp [Part.tokens, inParens]
    rw [hshape] at h ⊢
    rw [List.getElem?_cons_succ] at h
    -- a parenthesis further in closes a group further in
    rcases Nat.lt_or_ge j (tokensAll ps).length with hlt | hge
    · obtain ⟨i, qs, hgroup, hend⟩ := closer_inside ps (.closer :: r) hlt h
      exact ⟨i + 1, qs, groupAt_cons.mpr hgroup, by omega⟩
    · -- the last token of the part closes the part itself
      exact ⟨0, ps, groupAt_zero ps r, by omega⟩

/-- A closing parenthesis in the tokens of parts closes one of their groups. -/
theorem closer_inside : ∀ (ps : List Part) (r : List Token) {j : Nat},
    j < (tokensAll ps).length → (tokensAll ps ++ r)[j]? = some .closer →
    ∃ i qs, GroupAt (tokensAll ps ++ r) i qs ∧ i + (tokensAll qs).length + 1 = j
  | [], r, j, hj, h => by
    simp [tokensAll] at hj
  | p :: ps, r, j, hj, h => by
    simp only [tokensAll, List.length_append, List.append_assoc] at hj h ⊢
    rcases Nat.lt_or_ge j p.tokens.length with hlt | hge
    · exact Part.closer_inside p (tokensAll ps ++ r) hlt h
    · obtain ⟨k, rfl⟩ := Nat.exists_eq_add_of_le hge
      rw [List.getElem?_append_right (by omega), Nat.add_sub_cancel_left] at h
      obtain ⟨i, qs, hgroup, hend⟩ := closer_inside ps r (by omega) h
      exact ⟨p.tokens.length + i, qs, groupAt_append.mpr hgroup, by omega⟩

end

/-- Inside of parts every opening parenthesis is closed. -/
theorem not_unclosed_inside (ps : List Part) (r : List Token) (hi : i < (tokensAll ps).length) :
    ¬ Unclosed (tokensAll ps ++ r) i := by
  intro h
  obtain ⟨qs, -, hgroup, -⟩ := opener_inside ps r hi h.1
  exact h.2 qs hgroup

/-- Inside of parts every closing parenthesis is the end of a group. -/
theorem not_stray_inside (ps : List Part) (r : List Token) (hj : j < (tokensAll ps).length) :
    ¬ Stray (tokensAll ps ++ r) j := by
  intro h
  obtain ⟨i, qs, hgroup, hend⟩ := closer_inside ps r hj h.1
  exact h.2 i qs hgroup hend

/-- A closing parenthesis right after balanced text from the start is stray. -/
theorem stray_after_parts (ps : List Part) (rest : List Token) :
    Stray (tokensAll ps ++ .closer :: rest) (tokensAll ps).length := by
  refine ⟨by simp, ?_⟩
  intro i qs hgroup hend
  -- its opening parenthesis would stand inside the parts, and the group it opens ends there too
  obtain ⟨qs', -, hgroup', hend'⟩ :=
    opener_inside ps (.closer :: rest) (by omega) hgroup.opener
  have hsame := hgroup.unique hgroup'
  subst hsame
  omega

/-! ## The shape of a text -/

/-- Every opening parenthesis is closed: balanced stretches with closing parentheses between. -/
inductive Closed : List Token → Prop where
  | parts (ps : List Part) : Closed (tokensAll ps)
  | closer (ps : List Part) {rest : List Token} (h : Closed rest) :
      Closed (tokensAll ps ++ .closer :: rest)

/-- Closed text stays closed when a part is put in front: its parentheses have their partners in
the part itself. -/
theorem Closed.cons (p : Part) {ts : List Token} (h : Closed ts) : Closed (p.tokens ++ ts) := by
  cases h with
  | parts ps => exact Closed.parts (p :: ps)
  | closer ps h => simpa [tokensAll] using Closed.closer (p :: ps) h

/-- A text of words and parentheses is closed, or balanced text follows an opening parenthesis
up to its end. -/
theorem closed_or_unclosed {ts : List Token} (hplain : ∀ k, .group k ∉ ts) :
    Closed ts ∨ ∃ before ps, ts = before ++ .opener :: tokensAll ps := by
  induction ts with
  | nil => exact Or.inl (Closed.parts [])
  | cons t ts ih =>
    have hrest : ∀ k, Token.group k ∉ ts := fun k h => hplain k (List.mem_cons_of_mem _ h)
    rcases ih hrest with hclosed | ⟨before, ps, rfl⟩
    · cases t with
      | word text => exact Or.inl (hclosed.cons (.word text))
      | group k => exact absurd (List.mem_cons_self ..) (hplain k)
      | closer => exact Or.inl (Closed.closer [] hclosed)
      | opener =>
        cases hclosed with
        | parts ps => exact Or.inr ⟨[], ps, rfl⟩
        | closer ps hclosed =>
          -- the closing parenthesis behind the first stretch gets this one as its partner
          refine Or.inl ?_
          simpa [Part.tokens, inParens] using hclosed.cons (.group ps)
    · exact Or.inr ⟨t :: before, ps, rfl⟩

/-- An opening parenthesis with nothing but parts behind it is unclosed. -/
theorem unclosed_of_split (before : List Token) (ps : List Part) :
    Unclosed (before ++ .opener :: tokensAll ps) before.length :=
  unclosed_append_length.mpr (unclosed_before_parts ps)

/-- Parts are in balance. With `balanced_iff` this is how a given text is shown to be balanced. -/
theorem balanced_tokensAll (ps : List Part) : Balanced (tokensAll ps) := by
  constructor
  · intro i h
    have hi : i < (tokensAll ps).length := (List.getElem?_eq_some_iff.mp h.1).1
    exact not_unclosed_inside ps [] hi (by simpa using h)
  · intro j h
    have hj : j < (tokensAll ps).length := (List.getElem?_eq_some_iff.mp h.1).1
    exact not_stray_inside ps [] hj (by simpa using h)

/-- Balanced texts are the tokens of lists of parts. What is proved by induction on parts holds of
every balanced text through this. -/
theorem balanced_iff (hplain : ∀ k, .group k ∉ ts) : Balanced ts ↔ ∃ ps, ts = tokensAll ps := by
  constructor
  · rintro ⟨hopen, hstray⟩
    rcases closed_or_unclosed hplain with hclosed | ⟨before, ps, rfl⟩
    · cases hclosed with
      | parts ps => exact ⟨ps, rfl⟩
      | closer ps _ => exact absurd (stray_after_parts ps _) (hstray _)
    · exact absurd (unclosed_of_split before ps) (hopen _)
  · rintro ⟨ps, rfl⟩
    exact balanced_tokensAll ps

/-- Balanced text stands before the first stray closing parenthesis. -/
theorem exists_of_stray (hplain : ∀ k, .group k ∉ ts) (h : Stray ts j) :
    ∃ ps rest, ts = tokensAll ps ++ .closer :: rest := by
  obtain ⟨front, after, rfl, rfl⟩ := exists_split h.1
  have hfront : ∀ k, Token.group k ∉ front := fun k hk => hplain k (by simp [hk])
  rcases closed_or_unclosed hfront with hclosed | ⟨before, ps, rfl⟩
  · cases hclosed with
    | parts ps => exact ⟨ps, after, rfl⟩
    | closer ps _ => exact ⟨ps, _, by rw [List.append_assoc]; rfl⟩
  · -- the stray parenthesis would close the unclosed one before it
    have hgroup : GroupAt (before ++ .opener :: (tokensAll ps ++ .closer :: after))
        before.length ps := groupAt_append.mpr (groupAt_zero ps after)
    exact absurd (by simp; omega) (h.2 before.length ps (by simpa using hgroup))

/-! ## A text in parentheses -/

/-- The closing parenthesis at the end opens nothing. -/
theorem opener_of_concat (h : (ts ++ [.closer])[i]? = some .opener) : ts[i]? = some .opener := by
  have hlt : i < ts.length := by
    by_contra hge
    rw [List.getElem?_append_right (by omega)] at h
    simp [List.getElem?_singleton] at h
  rwa [List.getElem?_append_left hlt] at h

/-- In a text that is put in parentheses, the first one has no partner when the text has an
unclosed parenthesis for the last one and no stray one for the first. -/
theorem unclosed_inParens_zero (hplain : ∀ k, .group k ∉ ts) :
    Unclosed (inParens ts) 0 ↔ (∀ j, ¬ Stray ts j) ∧ ∃ i, Unclosed ts i := by
  constructor
  · intro h
    have hopen : ∀ ps rest, ts ≠ tokensAll ps ++ .closer :: rest := by
      rintro ps rest rfl
      refine h.2 ps ?_
      simpa [inParens] using groupAt_zero ps (rest ++ [.closer])
    refine ⟨fun j hj => ?_, ?_⟩
    · obtain ⟨ps, rest, hts⟩ := exists_of_stray hplain hj
      exact hopen ps rest hts
    · rcases closed_or_unclosed hplain with hclosed | ⟨before, ps, rfl⟩
      · cases hclosed with
        | parts ps => exact absurd (groupAt_zero ps []) (h.2 ps)
        | closer ps _ => exact absurd rfl (hopen ps _)
      · exact ⟨_, unclosed_of_split before ps⟩
  · rintro ⟨hstray, i, hi⟩
    refine ⟨rfl, ?_⟩
    rintro ps ⟨rest, hdrop⟩
    have hts : ts ++ [.closer] = tokensAll ps ++ .closer :: rest := by
      simpa [inParens] using hdrop
    -- the last parenthesis closes the first one, or a parenthesis of the text does
    rcases List.eq_nil_or_concat rest with rfl | ⟨rest, t, rfl⟩
    · obtain rfl : ts = tokensAll ps := by simpa using hts
      exact (balanced_tokensAll ps).1 i hi
    · have hconcat : ts ++ [.closer] = (tokensAll ps ++ .closer :: rest) ++ [t] := by
        rw [hts]
        simp
      obtain ⟨rfl, -⟩ := List.append_inj' hconcat rfl
      exact hstray _ (stray_after_parts ps rest)

/-- The last parenthesis closes the last unclosed one of the text, and no other. -/
theorem unclosed_inParens_succ (hplain : ∀ k, .group k ∉ ts) :
    Unclosed (inParens ts) (i + 1) ↔ Unclosed ts i ∧ ∃ k, i < k ∧ Unclosed ts k := by
  by_cases hopener : ts[i]? = some .opener
  · obtain ⟨before, after, rfl, rfl⟩ := exists_split hopener
    have hafter : ∀ k, Token.group k ∉ after := fun k hk => hplain k (by simp [hk])
    have hshape : inParens (before ++ .opener :: after) =
        .opener :: (before ++ inParens after) := by simp [inParens]
    have hhere : Unclosed (before ++ .opener :: after) before.length ↔
        Unclosed (.opener :: after) 0 := unclosed_append_length
    -- what is unclosed further right is unclosed in the text behind this place
    have hlater : (∃ k, before.length < k ∧ Unclosed (before ++ .opener :: after) k) ↔
        ∃ k, Unclosed after k := by
      constructor
      · rintro ⟨k, hlt, hk⟩
        obtain ⟨m, rfl⟩ := Nat.exists_eq_add_of_lt hlt
        exact ⟨m, unclosed_behind.mp hk⟩
      · rintro ⟨m, hm⟩
        exact ⟨before.length + m + 1, by omega, unclosed_behind.mpr hm⟩
    have hwhole : Unclosed (before ++ inParens after) before.length ↔
        Unclosed (inParens after) 0 := unclosed_append_length
    -- the added closing parenthesis closes the last one that is open, and this is not it
    rw [hshape, unclosed_cons, hwhole, hhere, hlater]
    constructor
    · intro h
      have hopen : Unclosed ((.opener :: after) ++ [.closer]) 0 := h
      exact ⟨hopen.of_append_right (by simp), ((unclosed_inParens_zero hafter).mp h).2⟩
    · rintro ⟨hopen, hex⟩
      refine (unclosed_inParens_zero hafter).mpr ⟨fun j hj => ?_, hex⟩
      obtain ⟨ps, rest, rfl⟩ := exists_of_stray hafter hj
      exact hopen.2 ps (groupAt_zero ps rest)
  · refine ⟨fun h => absurd ?_ hopener, fun h => absurd h.1.1 hopener⟩
    exact opener_of_concat h.1

end KeyRules.Expression
