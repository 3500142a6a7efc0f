import KeyRules.Expression.Parse
import KeyRules.Proofs.Spelling

/-!
# KeyRules — the gaps between tokens

A text is made of its tokens, in order, and of the gaps between and around them, which are runs of
blanks. A gap may be empty, but not between two words, which would become one word. `Writing` is a
text that is taken apart in this way. Reading it finds the tokens that were written, and every text
can be taken apart so that these are the tokens that are read from it. The gaps themselves leave no
trace: texts with the same tokens compile alike.

* `Gap` — a run of blanks.
* `Writing` — tokens and gaps by turns, with their text and their tokens.
* `Writing.Proper` — what can stand as a token and as a gap.
* `Writing.tokens_text` — the tokens that were written are the tokens that are read.
* `exists_writing` — every text is a writing of the tokens that are read from it.
* `tokens_exact` — both together, and what follows for compiling.
-/

namespace KeyRules.Expression

open KeyRules.Text (isBlank)

/-- A run of blanks, which may be empty. -/
def Gap (text : String) : Prop :=
  ∀ c ∈ text.toList, isBlank c = true

instance (text : String) : Decidable (Gap text) :=
  List.decidableBAll (fun c => isBlank c = true) text.toList

namespace Token

/-- Whether a token is a word. -/
def isWord : Token → Bool
  | word _ => true
  | _ => false

/-- What can be a token of a text: a clean word or a parenthesis. -/
def Writable : Token → Prop
  | word text => CleanWord text
  | opener | closer => True
  | group _ => False

instance : (t : Token) → Decidable t.Writable
  | word text => inferInstanceAs (Decidable (CleanWord text))
  | opener | closer => inferInstanceAs (Decidable True)
  | group _ => inferInstanceAs (Decidable False)

end Token

/-- Tokens and gaps by turns, with a gap at both ends. -/
inductive Writing where
  /-- The gap at the end. -/
  | last (gap : String)
  /-- A gap, the token behind it, and what follows. -/
  | token (gap : String) (t : Token) (rest : Writing)
  deriving Repr

namespace Writing

/-- The text that is written. -/
def text : Writing → String
  | last gap => gap
  | token gap t rest => gap ++ (t.text ++ rest.text)

/-- The tokens that are written. -/
def tokens : Writing → List Token
  | last _ => []
  | token _ t rest => t :: rest.tokens

/-- The gap in front. -/
def gap : Writing → String
  | last gap => gap
  | token gap _ _ => gap

/-- Whether the first token is a word. -/
def startsWithWord : Writing → Bool
  | last _ => false
  | token _ t _ => t.isWord

/-- Tokens that a text can have, gaps of blanks, and no empty gap between two words. -/
def Proper : Writing → Prop
  | last gap => Gap gap
  | token gap t rest => Gap gap ∧ t.Writable ∧
      (t.isWord = true → rest.startsWithWord = true → rest.gap ≠ "") ∧ rest.Proper

instance decidableProper : (w : Writing) → Decidable w.Proper
  | last gap => inferInstanceAs (Decidable (Gap gap))
  | token gap t rest =>
    have : Decidable rest.Proper := decidableProper rest
    inferInstanceAs (Decidable (Gap gap ∧ t.Writable ∧
      (t.isWord = true → rest.startsWithWord = true → rest.gap ≠ "") ∧ rest.Proper))

/-- A writing with one character more in front. -/
def widen (c : Char) : Writing → Writing
  | last gap => last (String.singleton c ++ gap)
  | token gap t rest => token (String.singleton c ++ gap) t rest

variable {c : Char} {w rest : Writing} {g : String} {t : Token} {ts : List Token} {cs : List Char}

theorem toList_text_token :
    (token g t rest).text.toList = g.toList ++ (t.text.toList ++ rest.text.toList) := by
  rw [text, String.toList_append, String.toList_append]

/-- A writing starts with its first gap. -/
theorem toList_text_eq_gap_append (w : Writing) :
    ∃ behind, w.text.toList = w.gap.toList ++ behind := by
  cases w with
  | last g => exact ⟨[], (List.append_nil _).symm⟩
  | token g t rest => exact ⟨_, toList_text_token⟩

theorem Proper.gap_gap (h : w.Proper) : Gap w.gap := by
  cases w with
  | last g => exact h
  | token g t rest => exact h.1

/-! ## From the writing to the tokens -/

/-- A text that starts with a gap which is not empty does not go on in a word. -/
theorem wordEnds_of_gap (hgap : Gap g) (hne : g ≠ "") (cs : List Char) :
    WordEnds (g.toList ++ cs) := by
  cases hg : g.toList with
  | nil => exact absurd (String.toList_eq_nil_iff.mp hg) hne
  | cons c g' =>
    have hblank : isBlank c = true := hgap c (by rw [hg]; exact List.mem_cons_self ..)
    exact wordEnds_cons (not_wordChar_of_isBlank hblank)

/-- The text ends a word in front of it unless it starts with a word right away. -/
theorem wordEnds_text_iff (h : w.Proper) :
    WordEnds w.text.toList ↔ (w.startsWithWord = true → w.gap ≠ "") := by
  by_cases hne : w.gap = ""
  · cases w with
    | last g =>
      obtain rfl : g = "" := hne
      exact iff_of_true nofun nofun
    | token g t rest =>
      obtain rfl : g = "" := hne
      obtain ⟨-, ht, -, -⟩ := h
      rw [toList_text_token]
      cases t with
      | word word =>
        -- the first character of the word would go on in the word in front
        refine iff_of_false (fun hends => ?_) (fun hgap => hgap rfl rfl)
        have hne : word.toList ≠ [] := fun hnil => ht.1 (String.toList_eq_nil_iff.mp hnil)
        obtain ⟨c, behind, hword⟩ := List.exists_cons_of_ne_nil hne
        have hc : WordChar c := ht.2 c (by rw [hword]; exact List.mem_cons_self ..)
        rw [Token.text, hword] at hends
        exact hends c rfl hc
      | group i => exact absurd ht id
      | opener =>
        have hends : WordEnds ('(' :: rest.text.toList) := wordEnds_cons (by decide)
        exact iff_of_true hends nofun
      | closer =>
        have hends : WordEnds (')' :: rest.text.toList) := wordEnds_cons (by decide)
        exact iff_of_true hends nofun
  · obtain ⟨behind, htext⟩ := w.toList_text_eq_gap_append
    refine iff_of_true ?_ fun _ => hne
    rw [htext]
    exact wordEnds_of_gap h.gap_gap hne behind

/-- Blanks in front of a text do not change what it spells. -/
theorem spells_of_gap (hgap : ∀ c ∈ cs, isBlank c = true) {ds : List Char} (h : Spells ts ds) :
    Spells ts (cs ++ ds) := by
  induction cs with
  | nil => exact h
  | cons c cs ih =>
    rw [List.forall_mem_cons] at hgap
    exact .blank hgap.1 (ih hgap.2)

/-- A proper writing spells its tokens. The gap behind a word, or the parenthesis there, ends it. -/
theorem Proper.spells (h : w.Proper) : Spells w.tokens w.text.toList := by
  induction w with
  | last g =>
    have hblank := spells_of_gap h .nil
    rwa [List.append_nil] at hblank
  | token g t rest ih =>
    obtain ⟨hgap, ht, hapart, hrest⟩ := h
    have hbehind := ih hrest
    rw [toList_text_token]
    refine spells_of_gap hgap ?_
    cases t with
    | word word => exact .word ht ((wordEnds_text_iff hrest).mpr (hapart rfl)) hbehind
    | group i => exact absurd ht id
    | opener => exact .opener hbehind
    | closer => exact .closer hbehind

/-- The tokens that were written are the tokens that are read. -/
theorem tokens_text (h : w.Proper) : Expression.tokens w.text = w.tokens :=
  tokens_eq_iff.mpr h.spells

/-! ## From the text to a writing -/

/-- A wider gap in front is one character more of text. -/
theorem toList_text_widen : (w.widen c).text.toList = c :: w.text.toList := by
  cases w with
  | last g => simp [widen, text]
  | token g t rest => simp [widen, text]

/-- It is no token more. -/
theorem tokens_widen : (w.widen c).tokens = w.tokens := by
  cases w <;> rfl

theorem gap_singleton_append (hc : isBlank c = true) (hg : Gap g) :
    Gap (String.singleton c ++ g) := by
  intro d hd
  rw [String.toList_append, String.toList_singleton, List.singleton_append, List.mem_cons] at hd
  rcases hd with rfl | hd
  · exact hc
  · exact hg d hd

/-- A gap may be as wide as one likes. -/
theorem Proper.widen (h : w.Proper) (hc : isBlank c = true) : (w.widen c).Proper := by
  cases w with
  | last g => exact gap_singleton_append hc h
  | token g t rest => exact ⟨gap_singleton_append hc h.1, h.2⟩

end Writing

/-- A text that spells tokens can be taken apart into these tokens and gaps. -/
theorem Spells.exists_writing {ts : List Token} {cs : List Char} (h : Spells ts cs) :
    ∃ w : Writing, w.Proper ∧ w.tokens = ts ∧ w.text.toList = cs := by
  -- a blank widens the gap in front, and a token gets a new, empty one
  induction h with
  | nil => exact ⟨.last "", by decide, rfl, rfl⟩
  | blank hc _ ih =>
    obtain ⟨w, hproper, rfl, rfl⟩ := ih
    exact ⟨w.widen _, hproper.widen hc, Writing.tokens_widen, Writing.toList_text_widen⟩
  | opener _ ih =>
    obtain ⟨w, hproper, rfl, rfl⟩ := ih
    exact ⟨.token "" .opener w, ⟨by decide, trivial, nofun, hproper⟩, rfl,
      Writing.toList_text_token⟩
  | closer _ ih =>
    obtain ⟨w, hproper, rfl, rfl⟩ := ih
    exact ⟨.token "" .closer w, ⟨by decide, trivial, nofun, hproper⟩, rfl,
      Writing.toList_text_token⟩
  | @word text _ _ hw hends _ ih =>
    obtain ⟨w, hproper, rfl, rfl⟩ := ih
    have hapart : w.startsWithWord = true → w.gap ≠ "" :=
      (Writing.wordEnds_text_iff hproper).mp hends
    exact ⟨.token "" (.word text) w, ⟨by decide, hw, fun _ => hapart, hproper⟩, rfl,
      Writing.toList_text_token⟩

/-- Every text is a proper writing of the tokens that are read from it. -/
theorem exists_writing (text : String) :
    ∃ w : Writing, w.Proper ∧ w.tokens = tokens text ∧ w.text = text := by
  obtain ⟨w, hproper, htokens, htext⟩ := (spells_tokens text).exists_writing
  exact ⟨w, hproper, htokens, String.toList_inj.mp htext⟩

/-- Reading is exact: of tokens that are written with gaps around them it finds these tokens, and
every text is written in this way from the tokens that are found in it. So the gaps make no
difference to compiling. -/
theorem tokens_exact :
    (∀ w : Writing, w.Proper → tokens w.text = w.tokens) ∧
    (∀ text, ∃ w : Writing, w.Proper ∧ w.tokens = tokens text ∧ w.text = text) ∧
    ∀ v w : Writing, v.Proper → w.Proper → v.tokens = w.tokens →
      Condition.parse v.text = Condition.parse w.text := by
  refine ⟨fun w => Writing.tokens_text, exists_writing, ?_⟩
  intro v w hv hw hsame
  have htokens : tokens v.text = tokens w.text := by
    rw [Writing.tokens_text hv, Writing.tokens_text hw, hsame]
  rw [Condition.parse, Condition.parse, htokens]

/-- Wide gaps of any blanks, and no gaps at all where no two words meet. -/
theorem tokens_exact_beside_parentheses :
    let v : Writing := .token "" (.word "a") <| .token "\u3000" (.word "&&") <|
      .token "" .opener <| .token "" (.word "b||") <| .token "" .closer <| .last ""
    let w : Writing := .token "\t" (.word "a") <| .token " \n" (.word "&&") <|
      .token "\u00a0" .opener <| .token " " (.word "b||") <| .token "\u2028 " .closer <| .last " "
    v.text = "a\u3000&&(b||)" ∧ v.Proper ∧ w.Proper ∧ v.tokens = w.tokens ∧
      tokens v.text = v.tokens ∧ Condition.parse v.text = Condition.parse w.text := by
  intro v w
  have hv : v.Proper := by decide
  have hw : w.Proper := by decide
  exact ⟨by decide, hv, hw, rfl, tokens_exact.1 v hv, tokens_exact.2.2 v w hv hw rfl⟩

end KeyRules.Expression
