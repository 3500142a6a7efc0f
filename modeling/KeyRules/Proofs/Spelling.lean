import KeyRules.Expression.Token

/-!
# KeyRules — how tokens are spelled

A text spells a sequence of tokens when it has them in order, with blanks around them as one likes
and no word character right behind a word. The relation does not depend on how a text is read, and
a text spells exactly the tokens that are read from it.

* `CleanWord` — what can stand as a word of its own.
* `Spells` — a sequence of tokens and a text for it.
* `tokens_eq_iff` — reading a text finds the tokens that it spells.
* `tokens_append`, `tokens_inParens`, `tokens_parenthesized` — the tokens of texts that are put
  together.
* `cleanWord_of_mem_tokens`, `group_not_mem_tokens` — what can be among the tokens of a text.
-/

namespace KeyRules.Expression

open KeyRules.Text (isBlank)

/-- A character that can stand in a word. -/
def WordChar (c : Char) : Prop :=
  isBlank c = false ∧ c ≠ '(' ∧ c ≠ ')'

instance (c : Char) : Decidable (WordChar c) :=
  inferInstanceAs (Decidable (_ ∧ _))

/-- A text that can stand as a word: not empty, and without blanks and parentheses. -/
def CleanWord (text : String) : Prop :=
  text ≠ "" ∧ ∀ c ∈ text.toList, WordChar c

-- by the characters of the text, and not by all characters there are
instance (text : String) : Decidable (CleanWord text) :=
  @instDecidableAnd _ _ _ (List.decidableBAll WordChar text.toList)

/-- The text goes on without a word character. -/
def WordEnds (cs : List Char) : Prop :=
  ∀ c ∈ cs.head?, ¬ WordChar c

/-- A sequence of tokens and a text for it. -/
inductive Spells : List Token → List Char → Prop where
  | nil : Spells [] []
  | blank {c : Char} {ts : List Token} {cs : List Char} (hc : isBlank c = true)
      (h : Spells ts cs) : Spells ts (c :: cs)
  | opener {ts : List Token} {cs : List Char} (h : Spells ts cs) :
      Spells (.opener :: ts) ('(' :: cs)
  | closer {ts : List Token} {cs : List Char} (h : Spells ts cs) :
      Spells (.closer :: ts) (')' :: cs)
  | word {text : String} {ts : List Token} {cs : List Char} (hw : CleanWord text)
      (hends : WordEnds cs) (h : Spells ts cs) : Spells (.word text :: ts) (text.toList ++ cs)

theorem not_wordChar_of_isBlank {c : Char} (h : isBlank c = true) : ¬ WordChar c := by
  simp [WordChar, h]

/-- The four kinds of characters. -/
theorem char_cases (c : Char) : c = '(' ∨ c = ')' ∨ isBlank c = true ∨ WordChar c := by
  by_cases hopen : c = '('
  · exact Or.inl hopen
  by_cases hclose : c = ')'
  · exact Or.inr (Or.inl hclose)
  cases hblank : isBlank c with
  | true => exact Or.inr (Or.inr (Or.inl rfl))
  | false => exact Or.inr (Or.inr (Or.inr ⟨hblank, hopen, hclose⟩))

variable {c : Char} {cs w : List Char} {ts : List Token} {r : Reading}

/-- A text that starts with another character than those of words ends a word in front of it. -/
theorem wordEnds_cons (h : ¬ WordChar c) : WordEnds (c :: cs) := by
  simpa [WordEnds] using h

/-! ## Reading a text -/

namespace Reading

/-- A parenthesis ends the pending word and is a token of its own. -/
theorem push_opener (r : Reading) : r.push '(' = { tokens := r.flush.push .opener } := by
  simp [push]

theorem push_closer (r : Reading) : r.push ')' = { tokens := r.flush.push .closer } := by
  simp [push]

/-- A blank ends the pending word and is not read as anything itself. -/
theorem push_blank (h : isBlank c = true) (r : Reading) : r.push c = { tokens := r.flush } := by
  have hopen : c ≠ '(' := by
    rintro rfl
    exact absurd h (by decide)
  have hclose : c ≠ ')' := by
    rintro rfl
    exact absurd h (by decide)
  simp [push, hopen, hclose, h]

/-- A word character goes on with the pending word, or starts a new one. -/
theorem push_wordChar (h : WordChar c) (r : Reading) :
    r.push c = { r with pending := c :: r.pending } := by
  obtain ⟨hblank, hopen, hclose⟩ := h
  simp [push, hopen, hclose, hblank]

/-- Word characters pile up in the pending word, and no token is finished. -/
theorem foldl_wordChars (hw : ∀ c ∈ w, WordChar c) :
    w.foldl push r = { r with pending := w.reverse ++ r.pending } := by
  induction w generalizing r with
  | nil => rfl
  | cons c w ih =>
    rw [List.forall_mem_cons] at hw
    rw [List.foldl_cons, push_wordChar hw.1, ih hw.2, List.reverse_cons, List.append_assoc]
    rfl

theorem flush_of_pending_eq_nil (h : r.pending = []) : r.flush = r.tokens := by
  simp [flush, h]

/-- A pending word becomes a token when it ends. -/
theorem flush_word (hw : w ≠ []) :
    flush ⟨r.tokens, w.reverse⟩ = r.tokens.push (.word (String.ofList w)) := by
  cases hrev : w.reverse with
  | nil => exact absurd (List.reverse_eq_nil_iff.mp hrev) hw
  | cons c v =>
    show r.tokens.push (.word (String.ofList (c :: v).reverse)) = _
    rw [← hrev, List.reverse_reverse]

end Reading

/-! ## Texts spell the tokens that are read from them -/

/-- Reading what spells some tokens adds these tokens, unless it goes on with a pending word. -/
theorem Spells.toList_flush (h : Spells ts cs) (hr : r.pending = [] ∨ WordEnds cs) :
    (cs.foldl Reading.push r).flush.toList = r.flush.toList ++ ts := by
  induction h generalizing r with
  | nil => exact (List.append_nil _).symm
  | blank hc _ ih =>
    rw [List.foldl_cons, Reading.push_blank hc, ih (Or.inl rfl)]
    rfl
  | opener _ ih =>
    rw [List.foldl_cons, Reading.push_opener, ih (Or.inl rfl)]
    simp [Reading.flush]
  | closer _ ih =>
    rw [List.foldl_cons, Reading.push_closer, ih (Or.inl rfl)]
    simp [Reading.flush]
  | @word text ts cs hw hends _ ih =>
    have hne : text.toList ≠ [] := by simpa using hw.1
    -- the word starts here, because its first character would go on with a pending one
    have hnil : r.pending = [] := by
      refine hr.resolve_right fun hstart => ?_
      obtain ⟨c, v, htext⟩ := List.exists_cons_of_ne_nil hne
      have hc : WordChar c := hw.2 c (by simp [htext])
      rw [htext] at hstart
      exact hstart c rfl hc
    rw [List.foldl_append, Reading.foldl_wordChars hw.2, hnil, List.append_nil,
      ih (Or.inr hends), Reading.flush_word hne, Reading.flush_of_pending_eq_nil hnil,
      String.ofList_toList, Array.toList_push, List.append_assoc]
    rfl

/-- Reading finds the tokens that a text spells. -/
theorem Spells.tokens_eq {text : String} (h : Spells ts text.toList) : tokens text = ts := by
  rw [tokens, h.toList_flush (Or.inl rfl)]
  rfl

/-- Word characters in front of a text make a word of their own if the text ends words. -/
theorem Spells.word_append (h : Spells ts cs) (hends : WordEnds cs) (hw : ∀ c ∈ w, WordChar c) :
    ∃ us, Spells us (w ++ cs) := by
  by_cases hnil : w = []
  · subst hnil
    exact ⟨ts, h⟩
  · have hclean : CleanWord (String.ofList w) := ⟨by simpa using hnil, by simpa using hw⟩
    have hword := Spells.word hclean hends h
    rw [String.toList_ofList] at hword
    exact ⟨_, hword⟩

/-- The word characters at the start of a text, and tokens for what is behind them. -/
theorem exists_spells_behind (cs : List Char) : ∃ w rest ts,
    cs = w ++ rest ∧ (∀ c ∈ w, WordChar c) ∧ WordEnds rest ∧ Spells ts rest := by
  -- from the end of the text; a character that ends words turns those behind it into a token
  induction cs with
  | nil => exact ⟨[], [], [], rfl, by simp, by simp [WordEnds], .nil⟩
  | cons c cs ih =>
    obtain ⟨w, rest, ts, rfl, hw, hends, hspells⟩ := ih
    obtain ⟨us, hus⟩ := hspells.word_append hends hw
    rcases char_cases c with rfl | rfl | hblank | hword
    · exact ⟨[], _, _, rfl, by simp, wordEnds_cons (by decide), .opener hus⟩
    · exact ⟨[], _, _, rfl, by simp, wordEnds_cons (by decide), .closer hus⟩
    · exact ⟨[], _, _, rfl, by simp, wordEnds_cons (not_wordChar_of_isBlank hblank),
        .blank hblank hus⟩
    · exact ⟨c :: w, rest, ts, rfl, by simpa using ⟨hword, hw⟩, hends, hspells⟩

/-- Every text spells some tokens. -/
theorem exists_spells (cs : List Char) : ∃ ts, Spells ts cs := by
  obtain ⟨w, rest, ts, rfl, hw, hends, hspells⟩ := exists_spells_behind cs
  exact hspells.word_append hends hw

/-- Reading a text finds the tokens that it spells. With this the tokens of a text are argued
about without the loop that reads them. -/
theorem tokens_eq_iff {text : String} : tokens text = ts ↔ Spells ts text.toList := by
  constructor
  · rintro rfl
    obtain ⟨us, hus⟩ := exists_spells text.toList
    rw [hus.tokens_eq]
    exact hus
  · exact Spells.tokens_eq

/-- A text spells the tokens that are read from it. -/
theorem spells_tokens (text : String) : Spells (tokens text) text.toList :=
  tokens_eq_iff.mp rfl

/-! ## Texts put together -/

theorem wordEnds_append {ds : List Char} (h : WordEnds cs) (h' : WordEnds ds) :
    WordEnds (cs ++ ds) := by
  cases cs with
  | nil => exact h'
  | cons c cs => exact h

/-- Two texts spell their tokens one after the other, unless a word goes on over the border. -/
theorem Spells.append {us : List Token} {ds : List Char} (h : Spells ts cs) (h' : Spells us ds)
    (hends : WordEnds ds) : Spells (ts ++ us) (cs ++ ds) := by
  induction h with
  | nil => exact h'
  | blank hc _ ih => exact .blank hc ih
  | opener _ ih => exact .opener ih
  | closer _ ih => exact .closer ih
  | word hw hcs _ ih =>
    rw [List.append_assoc]
    exact .word hw (wordEnds_append hcs hends) ih

/-- Two texts are read one after the other, unless a word goes on over the border. -/
theorem tokens_append {front back : String} (hends : WordEnds back.toList) :
    tokens (front ++ back) = tokens front ++ tokens back := by
  rw [tokens_eq_iff, String.toList_append]
  exact (spells_tokens front).append (spells_tokens back) hends

theorem tokens_opener_append (text : String) : tokens ("(" ++ text) = .opener :: tokens text := by
  rw [tokens_eq_iff, String.toList_append]
  exact .opener (spells_tokens text)

theorem tokens_closer_append (text : String) : tokens (")" ++ text) = .closer :: tokens text := by
  rw [tokens_eq_iff, String.toList_append]
  exact .closer (spells_tokens text)

/-- A text in parentheses between two others. -/
theorem tokens_parenthesized (front text back : String) :
    tokens (front ++ "(" ++ text ++ ")" ++ back) =
      tokens front ++ (inParens (tokens text) ++ tokens back) := by
  -- a word in front of a parenthesis ends there
  have hopen (s : String) : WordEnds ("(" ++ s).toList := by
    rw [String.toList_append]
    exact wordEnds_cons (by decide)
  have hclose (s : String) : WordEnds (")" ++ s).toList := by
    rw [String.toList_append]
    exact wordEnds_cons (by decide)
  rw [String.append_assoc, String.append_assoc, String.append_assoc, tokens_append (hopen _),
    tokens_opener_append, tokens_append (hclose _), tokens_closer_append]
  simp [inParens]

theorem tokens_inParens (text : String) : tokens ("(" ++ text ++ ")") = inParens (tokens text) := by
  have hempty : tokens "" = [] := rfl
  simpa [hempty] using tokens_parenthesized "" text ""

/-! ## What is among the tokens of a text -/

/-- Only clean words are spelled. -/
theorem Spells.cleanWord {text : String} (h : Spells ts cs) (hmem : .word text ∈ ts) :
    CleanWord text := by
  induction h with
  | nil => simp at hmem
  | blank _ _ ih => exact ih hmem
  | opener _ ih => exact ih (by simpa using hmem)
  | closer _ ih => exact ih (by simpa using hmem)
  | word hw _ _ ih =>
    rcases List.mem_cons.mp hmem with heq | hmem
    · cases heq
      exact hw
    · exact ih hmem

/-- No placeholder is spelled: it is no text. -/
theorem Spells.group_not_mem (h : Spells ts cs) (k : Nat) : .group k ∉ ts := by
  induction h with
  | nil => simp
  | blank _ _ ih => exact ih
  | opener _ ih => simpa using ih
  | closer _ ih => simpa using ih
  | word _ _ _ ih => simpa using ih

/-- The words of a text are clean. -/
theorem cleanWord_of_mem_tokens {text word : String} (h : .word word ∈ tokens text) :
    CleanWord word :=
  (spells_tokens text).cleanWord h

/-- A text has no placeholders: only compiling makes them. -/
theorem group_not_mem_tokens (text : String) (k : Nat) : .group k ∉ tokens text :=
  (spells_tokens text).group_not_mem k

end KeyRules.Expression
