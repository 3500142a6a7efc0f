import KeyRules.Proofs.Balanced

/-!
# KeyRules — expressions with parentheses left over

When opening parentheses are never closed, the end of the text closes the last of them, and the
one before it, or else the start of the text, is a **limit**: only the groups behind it count.
A stray closing parenthesis makes the expression fail, but only where it is looked at. That takes
the start of the text to be reached, which two unclosed parentheses prevent.

* `Limit` — the place behind which groups count.
* `DecidedAfter` — the outcome that the groups behind a place call for.
* `parse_of_unclosed` — unclosed parentheses: the groups behind the limit decide.
* `parse_of_stray` — stray parentheses: an error, unless two unclosed ones hide them.
* `parse_of_hidden_stray` — a text with a stray parenthesis that compiles.
-/

namespace KeyRules.Expression

open KeyRules.Expression.Part (tokensAll)

/-- In a text that is put in parentheses, the place of the second to last unclosed parenthesis of
the text, or the place just before the text if only one is unclosed. -/
def Limit (ts : List Token) (u : Nat) : Prop :=
  (u = 0 ∧ ∃ k, Unclosed ts k ∧ ∀ m, Unclosed ts m → m = k) ∨
    ∃ k l, u = k + 1 ∧ k < l ∧ Unclosed ts k ∧ Unclosed ts l ∧
      ∀ m, Unclosed ts m → m ≤ k ∨ m = l

/-- The faulty group that opens last has the given place and error. -/
structure LastFault (ts : List Token) (i : Nat) (e : Error) : Prop where
  here : ∃ ps, GroupAt ts i ps ∧ fault ps = some e
  last : ∀ j ps, i < j → GroupAt ts j ps → fault ps = none

/-- The outcome that the groups behind a place call for: the error of the faulty one that opens
last, or else the condition of the one that opens first. -/
inductive DecidedAfter (ts : List Token) (u : Nat) : Outcome → Prop where
  | faulty {i : Nat} {e : Error} (hi : u < i) (h : LastFault ts i e) :
      DecidedAfter ts u (.error e)
  | first {i : Nat} {ps : List Part} {c : Condition}
      (hnone : ∀ j qs, u < j → GroupAt ts j qs → fault qs = none)
      (hfirst : FirstGroup ts u i ps) (hc : Derives (tokensAll ps) c) : DecidedAfter ts u (.ok c)

variable {ts : List Token} {ps : List Part} {u v : Nat} {r : Outcome}

/-! ## The limit -/

/-- A text has one limit at most. -/
theorem Limit.unique (hu : Limit ts u) (hv : Limit ts v) : u = v := by
  -- one unclosed parenthesis excludes two, and of two or more the second to last is fixed
  rcases hu with ⟨rfl, k, -, hk⟩ | ⟨k, l, rfl, hlt, hk, hl, hlast⟩
  · rcases hv with ⟨rfl, -⟩ | ⟨k', l', rfl, hlt', hk', hl', -⟩
    · rfl
    · have := hk k' hk'
      have := hk l' hl'
      omega
  · rcases hv with ⟨rfl, k', -, hk'⟩ | ⟨k', l', rfl, hlt', hk', hl', hlast'⟩
    · have := hk' k hk
      have := hk' l hl
      omega
    · have := hlast k' hk'
      have := hlast l' hl'
      have := hlast' k hk
      have := hlast' l hl
      omega

/-- A closed text has no unclosed parenthesis. -/
theorem Closed.not_unclosed (h : Closed ts) (i : Nat) : ¬ Unclosed ts i := by
  induction h generalizing i with
  | parts ps => exact (balanced_tokensAll ps).1 i
  | closer ps _ ih =>
    intro hopen
    -- in the first stretch, at its closing parenthesis, or behind it
    rcases Nat.lt_trichotomy i (tokensAll ps).length with hlt | rfl | hgt
    · exact not_unclosed_inside ps _ hlt hopen
    · simpa using hopen.1
    · obtain ⟨k, rfl⟩ := Nat.exists_eq_add_of_lt hgt
      exact ih k (unclosed_behind.mp hopen)

/-- If there are unclosed parentheses there is a last one. -/
theorem exists_last_unclosed (hplain : ∀ k, .group k ∉ ts) (h : ∃ i, Unclosed ts i) :
    ∃ u, Unclosed ts u ∧ ∀ j, u < j → ¬ Unclosed ts j := by
  rcases closed_or_unclosed hplain with hclosed | ⟨before, ps, rfl⟩
  · obtain ⟨i, hi⟩ := h
    exact absurd hi (hclosed.not_unclosed i)
  · refine ⟨before.length, unclosed_of_split before ps, ?_⟩
    intro j hj hopen
    obtain ⟨k, rfl⟩ := Nat.exists_eq_add_of_lt hj
    exact (balanced_tokensAll ps).1 k (unclosed_behind.mp hopen)

/-- The limit is the last unclosed parenthesis of the text in parentheses. -/
theorem limit_of_last (hplain : ∀ k, .group k ∉ ts) (hopen : Unclosed (inParens ts) u)
    (hlast : ∀ j, u < j → ¬ Unclosed (inParens ts) j) : Limit ts u := by
  -- no unclosed parenthesis behind the limit has another one behind it
  have hbehind : ∀ k l, u ≤ k → k < l → Unclosed ts k → ¬ Unclosed ts l := by
    intro k l hk hlt hik hil
    have hopen' : Unclosed (inParens ts) (k + 1) :=
      (unclosed_inParens_succ hplain).mpr ⟨hik, l, hlt, hil⟩
    exact hlast (k + 1) (by omega) hopen'
  have hsame : ∀ k l, u ≤ k → u ≤ l → Unclosed ts k → Unclosed ts l → k = l := by
    intro k l hk hl hik hil
    rcases Nat.lt_trichotomy k l with hlt | heq | hgt
    · exact absurd hil (hbehind k l hk hlt hik)
    · exact heq
    · exact absurd hik (hbehind l k hl hgt hil)
  cases u with
  | zero =>
    obtain ⟨-, k, hk⟩ := (unclosed_inParens_zero hplain).mp hopen
    refine Or.inl ⟨rfl, k, hk, ?_⟩
    intro m hm
    exact hsame m k (Nat.zero_le m) (Nat.zero_le k) hm hk
  | succ k =>
    obtain ⟨hk, l, hlt, hl⟩ := (unclosed_inParens_succ hplain).mp hopen
    refine Or.inr ⟨k, l, rfl, hlt, hk, hl, ?_⟩
    intro m hm
    rcases Nat.lt_or_ge k m with hkm | hmk
    · exact Or.inr (hsame m l hkm hlt hm hl)
    · exact Or.inl hmk

/-- Nothing in front of an unclosed parenthesis is reached, since compiling ends there. -/
theorem Reached.after {i : Nat} (h : Reached ts i) (hopen : Unclosed ts u) : u < i := by
  obtain ⟨ps, hgroup⟩ := h.group
  rcases Nat.lt_trichotomy u i with hlt | rfl | hgt
  · exact hlt
  · exact absurd hgroup (hopen.2 ps)
  · exact absurd (h.sound u hgt) hopen.not_sound

/-- The groups reached are those behind the last unclosed parenthesis with no faulty one behind
them. -/
theorem reached_iff (hopen : Unclosed ts u) (hlast : ∀ j, u < j → ¬ Unclosed ts j) {i : Nat} :
    Reached ts i ↔ u < i ∧ (∃ ps, GroupAt ts i ps) ∧
      ∀ j ps, i < j → GroupAt ts j ps → fault ps = none := by
  constructor
  · intro hr
    exact ⟨hr.after hopen, hr.group, fun j ps hj => (hr.sound j hj).2 ps⟩
  · rintro ⟨hi, hgroup, hnone⟩
    refine ⟨hgroup, ?_⟩
    intro j hj
    -- behind the last unclosed opener every opener has a closer
    have hclosed : ¬ Unclosed ts j := hlast j (by omega)
    exact ⟨hclosed, fun ps => hnone j ps hj⟩

/-- The groups behind the last unclosed parenthesis decide. -/
theorem Verdict.decidedAfter (h : Verdict ts r) (hopen : Unclosed ts u)
    (hlast : ∀ j, u < j → ¬ Unclosed ts j) : DecidedAfter ts u r := by
  cases h with
  | @faulty i ps e hgroup he hsound =>
    have hreached : Reached ts i := ⟨⟨ps, hgroup⟩, hsound⟩
    refine .faulty (hreached.after hopen) ⟨⟨ps, hgroup, he⟩, ?_⟩
    intro j qs hj
    exact (hsound j hj).2 qs
  | @unclosed u' i ps c hopen' hsound hfirst hc =>
    -- both are the last unclosed parenthesis
    obtain rfl : u' = u := by
      rcases Nat.lt_trichotomy u' u with hlt | heq | hgt
      · exact absurd (hsound u hlt) hopen.not_sound
      · exact heq
      · exact absurd hopen' (hlast u' hgt)
    exact .first (fun j qs hj => (hsound j hj).2 qs) hfirst (derives_tokensAll ps hc)
  | whole hts =>
    rw [hts] at hopen
    exact absurd hopen (not_unclosed_inParens _ _)
  | scattered hsound => exact absurd (hsound u) hopen.not_sound

/-- At the last unclosed parenthesis there is a limit behind which all groups are closed. -/
theorem exists_limit {text : String} (h : ∃ i, Unclosed (inParens (tokens text)) i) :
    ∃ u, Limit (tokens text) u ∧ Unclosed (inParens (tokens text)) u ∧
      ∀ j, u < j → ¬ Unclosed (inParens (tokens text)) j := by
  have hplain := group_not_mem_tokens text
  have hwhole : ∀ k, Token.group k ∉ inParens (tokens text) := by
    simpa [inParens] using hplain
  obtain ⟨u, hopen, hlast⟩ := exists_last_unclosed hwhole h
  exact ⟨u, limit_of_last hplain hopen hlast, hopen, hlast⟩

/-- The outcome of a text is the verdict on its tokens in parentheses. -/
theorem verdict_parse (text : String) :
    Verdict (inParens (tokens text)) (Condition.parse text) :=
  parse_eq_iff_verdict.mp rfl

/-! ## Unclosed parentheses -/

/-- Opening parentheses in front of a balanced text in parentheses change nothing. -/
theorem Verdict.behind_openers (h : Verdict (inParens (tokensAll ps)) r) (n : Nat) :
    Verdict (List.replicate n .opener ++ inParens (tokensAll ps)) r := by
  cases h with
  | faulty hgroup he hsound =>
    refine .faulty (groupAt_append.mpr hgroup) he fun j hj => ?_
    obtain ⟨k, rfl⟩ := Nat.exists_eq_add_of_lt (Nat.lt_of_le_of_lt (Nat.le_add_right _ _) hj)
    rw [Nat.add_assoc] at hj ⊢
    exact sound_append.mpr (hsound _ (Nat.lt_of_add_lt_add_left hj))
  | unclosed hopen => exact absurd hopen (not_unclosed_inParens ps _)
  | @whole qs c hts hc =>
    obtain rfl := inParens_injective hts
    -- one more opener is unclosed, and the text behind it is the first group it finds
    cases n with
    | zero => exact .whole rfl hc
    | succ n =>
      have hshape : List.replicate (n + 1) Token.opener ++ inParens (tokensAll ps) =
          List.replicate n .opener ++ .opener :: inParens (tokensAll ps) := by
        rw [List.replicate_succ', List.append_assoc, List.singleton_append]
      have hsound := sound_of_condition hc
      rw [inParens_eq_tokensAll] at hshape hsound
      rw [inParens_eq_tokensAll, hshape]
      exact verdict_of_unclosed _ [] ps [] hsound hc
  | scattered _ hts => exact absurd rfl (hts ps)

/-- Parentheses are tokens of their own, whatever follows them. -/
theorem tokens_openers_append (n : Nat) (text : String) :
    tokens (String.ofList (List.replicate n '(') ++ text) =
      List.replicate n .opener ++ tokens text := by
  rw [tokens_eq_iff, String.toList_append, String.toList_ofList]
  induction n with
  | zero => exact spells_tokens text
  | succ n ih => exact .opener ih

theorem inParens_openers_append (n : Nat) (ts : List Token) :
    inParens (List.replicate n .opener ++ ts) = List.replicate n .opener ++ inParens ts := by
  induction n with
  | zero => rfl
  | succ n ih => exact congrArg (.opener :: ·) ih

/-- When opening parentheses are left over and no closing ones, only the groups behind the limit
are compiled, down to a faulty one, and they decide. In particular, opening parentheses in front
of a balanced text change nothing. -/
theorem parse_of_unclosed :
    (∀ text, (∀ j, ¬ Stray (tokens text) j) → (∃ k, Unclosed (tokens text) k) →
      (∃ u, Limit (tokens text) u) ∧ ∀ u, Limit (tokens text) u →
        (∀ i, Work.Compiles { tokens := inParens (tokens text) } i ↔
          u < i ∧ (∃ ps, GroupAt (inParens (tokens text)) i ps) ∧
            ∀ j ps, i < j → GroupAt (inParens (tokens text)) j ps → fault ps = none) ∧
        DecidedAfter (inParens (tokens text)) u (Condition.parse text)) ∧
    ∀ n text, Balanced (tokens text) →
      Condition.parse (String.ofList (List.replicate n '(') ++ text) = Condition.parse text := by
  constructor
  · intro text hstray hopen
    have hplain := group_not_mem_tokens text
    -- the first parenthesis of all loses its partner to the last unclosed one
    have hstart : Unclosed (inParens (tokens text)) 0 :=
      (unclosed_inParens_zero hplain).mpr ⟨hstray, hopen⟩
    obtain ⟨u, hlimit, hu, hlast⟩ := exists_limit ⟨0, hstart⟩
    refine ⟨⟨u, hlimit⟩, fun v hv => ?_⟩
    rw [hv.unique hlimit]
    refine ⟨fun i => ?_, (verdict_parse text).decidedAfter hu hlast⟩
    rw [compiles_inParens_iff hplain, reached_iff hu hlast]
  · intro n text hbalanced
    obtain ⟨ps, hps⟩ := (balanced_iff (group_not_mem_tokens text)).mp hbalanced
    have hverdict := verdict_parse text
    rw [hps] at hverdict
    rw [parse_eq_iff_verdict, tokens_openers_append, inParens_openers_append, hps]
    exact hverdict.behind_openers n

/-- A whole group before the unclosed parenthesis opens first, so it is the outcome. -/
theorem parse_of_group_before_unclosed :
    (∀ j, ¬ Stray (tokens "(a || b) && (c") j) ∧ (∃ k, Unclosed (tokens "(a || b) && (c") k) ∧
      DecidedAfter (inParens (tokens "(a || b) && (c")) 0 (Condition.parse "(a || b) && (c") ∧
      Condition.parse "(a || b) && (c" = .ok (.group .or [.key "a", .key "b"]) ∧
      Balanced (tokens "x y") ∧ Condition.parse "((x y" = Condition.parse "x y" := by
  have hgroup : GroupAt (tokens "(a || b) && (c") 0 [.word "a", .word "||", .word "b"] := by
    exact ⟨[.word "&&", .opener, .word "c"], by decide⟩
  have hopen : Unclosed (tokens "(a || b) && (c") 6 := unclosed_of_not_mem (by decide) (by decide)
  have hclosers : ∀ j < 8, (tokens "(a || b) && (c")[j]? = some .closer → j = 4 := by decide
  have hopeners : ∀ k < 8, (tokens "(a || b) && (c")[k]? = some .opener → k = 0 ∨ k = 6 := by
    decide
  have hstray : ∀ j, ¬ Stray (tokens "(a || b) && (c") j := by
    intro j hj
    obtain rfl := hclosers j (List.getElem?_eq_some_iff.mp hj.1).1 hj.1
    exact hj.2 0 _ hgroup rfl
  have hlimit : Limit (tokens "(a || b) && (c") 0 := by
    refine Or.inl ⟨rfl, 6, hopen, fun k hk => ?_⟩
    rcases hopeners k (List.getElem?_eq_some_iff.mp hk.1).1 hk.1 with rfl | rfl
    · exact absurd hgroup (hk.2 _)
    · rfl
  have hbalanced : Balanced (tokens "x y") := by
    have hparts : tokens "x y" = tokensAll [.word "x", .word "y"] := by decide
    exact hparts ▸ balanced_tokensAll _
  have htokens : inParens (tokens "(a || b) && (c") = [] ++ .opener :: tokensAll
      ([].map .word ++ .group [.word "a", .word "||", .word "b"] ::
        [.word "&&", .group [.word "c"]]) := by decide
  have hparse : Condition.parse "(a || b) && (c" = .ok (.group .or [.key "a", .key "b"]) :=
    parse_of_opener htokens (by decide) (by decide)
  exact ⟨hstray, ⟨6, hopen⟩, ((parse_of_unclosed.1 _ hstray ⟨6, hopen⟩).2 0 hlimit).2, hparse,
    hbalanced, parse_of_unclosed.2 2 "x y" hbalanced⟩

/-! ## Stray parentheses -/

/-- A stray closing parenthesis makes an expression fail when at most one opening one is unclosed.
Otherwise the groups behind the limit decide, and it is not looked at. -/
theorem parse_of_stray (text : String) (h : ∃ j, Stray (tokens text) j) :
    ((∀ k l, Unclosed (tokens text) k → Unclosed (tokens text) l → k = l) →
      (∃ i e, LastFault (inParens (tokens text)) i e ∧ Condition.parse text = .error e) ∨
        ((∀ i ps, GroupAt (inParens (tokens text)) i ps → fault ps = none) ∧
          Condition.parse text = .error .unbalanced)) ∧
    ((∃ k l, k < l ∧ Unclosed (tokens text) k ∧ Unclosed (tokens text) l) →
      ∃ u, Limit (tokens text) u ∧
        DecidedAfter (inParens (tokens text)) u (Condition.parse text)) := by
  have hplain := group_not_mem_tokens text
  obtain ⟨j, hj⟩ := h
  constructor
  · intro hone
    -- with one unclosed parenthesis at most, those around the text find partners
    have hclosed : ∀ i, ¬ Unclosed (inParens (tokens text)) i := by
      intro i hopen
      cases i with
      | zero => exact ((unclosed_inParens_zero hplain).mp hopen).1 j hj
      | succ k =>
        obtain ⟨hk, l, hlt, hl⟩ := (unclosed_inParens_succ hplain).mp hopen
        have := hone k l hk hl
        omega
    have hverdict := verdict_parse text
    generalize Condition.parse text = r at hverdict
    cases hverdict with
    | @faulty i ps e hgroup he hsound =>
      exact Or.inl ⟨i, e, ⟨⟨ps, hgroup, he⟩, fun k qs hk => (hsound k hk).2 qs⟩, rfl⟩
    | unclosed hopen => exact absurd hopen (hclosed _)
    | @whole ps c hts hc =>
      have htext : tokens text = tokensAll ps := by simpa [inParens] using hts
      exact absurd (htext ▸ hj) ((balanced_tokensAll ps).2 j)
    | scattered hsound => exact Or.inr ⟨fun i => (hsound i).2, rfl⟩
  · rintro ⟨k, l, hlt, hk, hl⟩
    -- the first of two stays unclosed, because only the second finds the added parenthesis
    have hopen : Unclosed (inParens (tokens text)) (k + 1) :=
      (unclosed_inParens_succ hplain).mpr ⟨hk, l, hlt, hl⟩
    obtain ⟨u, hlimit, hu, hlast⟩ := exists_limit ⟨k + 1, hopen⟩
    exact ⟨u, hlimit, (verdict_parse text).decidedAfter hu hlast⟩

/-- A fault is reported where a stray parenthesis is looked at, and where it is not. -/
theorem parse_of_stray_with_fault :
    (∃ j, Stray (tokens "a b) && (c") j) ∧
      (∀ k l, Unclosed (tokens "a b) && (c") k → Unclosed (tokens "a b) && (c") l → k = l) ∧
      (∃ i e, LastFault (inParens (tokens "a b) && (c")) i e ∧
        Condition.parse "a b) && (c" = .error e) ∧
      Stray (tokens "a) ((b c") 1 ∧
      ∃ u, Limit (tokens "a) ((b c") u ∧
        DecidedAfter (inParens (tokens "a) ((b c")) u (Condition.parse "a) ((b c") := by
  have hfault : tokens "a b) && (c" = tokensAll [.word "a", .word "b"] ++
      .closer :: [.word "&&", .opener, .word "c"] := by decide
  have hstray : Stray (tokens "a b) && (c") 2 := by
    rw [hfault]
    exact stray_after_parts [.word "a", .word "b"] _
  have hopeners : ∀ k < 6, (tokens "a b) && (c")[k]? = some .opener → k = 4 := by decide
  have hone : ∀ k l, Unclosed (tokens "a b) && (c") k → Unclosed (tokens "a b) && (c") l →
      k = l := by
    intro k l hk hl
    rw [hopeners k (List.getElem?_eq_some_iff.mp hk.1).1 hk.1,
      hopeners l (List.getElem?_eq_some_iff.mp hl.1).1 hl.1]
  have hhidden : tokens "a) ((b c" =
      tokensAll [.word "a"] ++ .closer :: [.opener, .opener, .word "b", .word "c"] := by decide
  have hstray' : Stray (tokens "a) ((b c") 1 := by
    rw [hhidden]
    exact stray_after_parts [.word "a"] _
  have hfirst : Unclosed (tokens "a) ((b c") 2 := unclosed_of_not_mem (by decide) (by decide)
  have hsecond : Unclosed (tokens "a) ((b c") 3 := unclosed_of_not_mem (by decide) (by decide)
  refine ⟨⟨2, hstray⟩, hone, ?_, hstray',
    (parse_of_stray _ ⟨1, hstray'⟩).2 ⟨2, 3, by decide, hfirst, hsecond⟩⟩
  have hgroup : GroupAt (inParens (tokens "a b) && (c")) 0 [.word "a", .word "b"] :=
    ⟨[.word "&&", .opener, .word "c", .closer], by decide⟩
  rcases (parse_of_stray _ ⟨2, hstray⟩).1 hone with hlast | ⟨hnone, -⟩
  · exact hlast
  · exact absurd (hnone 0 _ hgroup) (by decide)

/-- Behind two unclosed parentheses a stray one is not looked at: this expression compiles. -/
theorem parse_of_hidden_stray :
    Stray (tokens "a) ((b") 1 ∧ Condition.parse "a) ((b" = .ok (.key "b") := by
  have htokens : tokens "a) ((b" =
      tokensAll [.word "a"] ++ .closer :: [.opener, .opener, .word "b"] := by decide
  have hshape : inParens (tokens "a) ((b") = [.opener, .word "a", .closer] ++ .opener ::
      tokensAll ([].map .word ++ .group [.word "b"] :: []) := by decide
  constructor
  · rw [htokens]
    exact stray_after_parts [.word "a"] _
  · exact parse_of_opener hshape (by decide) rfl

end KeyRules.Expression
