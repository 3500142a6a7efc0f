import KeyRules.Proofs.Balanced
import Mathlib.Logic.Equiv.Basic

/-!
# KeyRules — renaming words

No word of an expression is treated by its spelling, apart from the two operators. When the words of
a text are renamed, different words differently and the operators not at all, every step of the
compilation is the step on the old words with the new ones in their place. So the outcome is the
old one with its keys renamed, or the old error with the words in it renamed.

* `Word`, `Word.extend` — words, and maps of words on all texts.
* `Token.renamed`, `Condition.renamed`, `Error.renamed` — things with their words renamed.
* `renamedText` — a text with its words replaced where they stand.
* `Renames` — what is asked of a renaming.
* `Work.step_renamed`, `Work.run_renamed` — one step on new words, and all of them.
* `parse_renamed` — the outcome of a text with its words renamed.
-/

namespace KeyRules

/-! ## Things with renamed words -/

mutual

/-- A condition with its keys renamed. -/
def Condition.renamed (g : String → String) : Condition → Condition
  | .key name => .key (g name)
  | .group op operands => .group op (Condition.renamedAll g operands)

/-- Several conditions with their keys renamed. -/
def Condition.renamedAll (g : String → String) : List Condition → List Condition
  | [] => []
  | c :: cs => c.renamed g :: Condition.renamedAll g cs

end

/-- An error with the texts of the tokens in it renamed. -/
def Error.renamed (g : String → String) : Error → Error
  | .mixedOperators expected found => .mixedOperators (g expected) (g found)
  | .unknownOperator word => .unknownOperator (g word)
  | e => e

/-- A result or an error with renamed words. -/
def renamedResult {α β : Type} (g : String → String) (r : α → β) : Except Error α → Except Error β
  | .ok a => .ok (r a)
  | .error e => .error (e.renamed g)

theorem Condition.renamedAll_eq_map (g : String → String) (cs : List Condition) :
    Condition.renamedAll g cs = cs.map (Condition.renamed g) := by
  induction cs with
  | nil => rfl
  | cons c cs ih => rw [Condition.renamedAll, ih, List.map_cons]

namespace Expression

/-- What can stand as a word of an expression. -/
def Word := { text : String // CleanWord text }

instance : DecidableEq Word :=
  inferInstanceAs (DecidableEq { text : String // CleanWord text })

/-- A map of words on all texts. What is no word stays as it is. -/
def Word.extend (f : Word → Word) (text : String) : String :=
  if h : CleanWord text then (f ⟨text, h⟩).1 else text

/-- The word that an operator is written as. -/
def Word.ofOperator (op : Operator) : Word :=
  ⟨op.symbol, by cases op <;> decide⟩

/-- A token with its word renamed. -/
def Token.renamed (g : String → String) : Token → Token
  | .word text => .word (g text)
  | t => t

/-- A store with the keys in it renamed. -/
def Store.renamed (g : String → String) (store : Store) : Store :=
  ⟨store.places.map (Option.map (Condition.renamed g))⟩

/-- Work on a text with renamed words. -/
def Work.renamed (g : String → String) (w : Work) : Work :=
  ⟨w.tokens.map (Token.renamed g), w.store.renamed g⟩

/-- What is asked of a renaming: different texts stay different, and operators and texts that are no
words stay as they are. -/
structure Renames (g : String → String) : Prop where
  injective : Function.Injective g
  symbol : ∀ op : Operator, g op.symbol = op.symbol
  other : ∀ text, ¬ CleanWord text → g text = text

variable {g : String → String}

theorem Word.extend_of_cleanWord (f : Word → Word) {text : String} (h : CleanWord text) :
    Word.extend f text = (f ⟨text, h⟩).1 :=
  dif_pos h

/-- A renaming of words, extended to all texts, takes words to words and nothing else to them. -/
theorem cleanWord_extend_iff (f : Word → Word) {text : String} :
    CleanWord (Word.extend f text) ↔ CleanWord text := by
  by_cases h : CleanWord text
  · rw [Word.extend_of_cleanWord f h]
    exact iff_of_true (f ⟨text, h⟩).2 h
  · rw [Word.extend, dif_neg h]

/-- An injective map of words that keeps the operators is a renaming. -/
theorem renames_extend {f : Word → Word} (hf : Function.Injective f)
    (hop : ∀ op, f (.ofOperator op) = .ofOperator op) : Renames (Word.extend f) where
  injective := by
    intro a b hab
    -- the image of a word is a word, so it is not a text that stays as it is
    have hclean : CleanWord a ↔ CleanWord b := by
      rw [← cleanWord_extend_iff f, hab, cleanWord_extend_iff f]
    by_cases ha : CleanWord a
    · have hb := hclean.mp ha
      rw [Word.extend_of_cleanWord f ha, Word.extend_of_cleanWord f hb] at hab
      exact congrArg Subtype.val (hf (Subtype.ext hab))
    · have hb := fun hb => ha (hclean.mpr hb)
      rwa [Word.extend, Word.extend, dif_neg ha, dif_neg hb] at hab
  symbol op := by
    rw [Word.extend_of_cleanWord f (show CleanWord op.symbol from (Word.ofOperator op).2)]
    exact congrArg Subtype.val (hop op)
  other text h := dif_neg h

/-! ## Tokens -/

theorem renamed_eq_opener_iff {t : Token} : t.renamed g = .opener ↔ t = .opener := by
  cases t <;> simp [Token.renamed]

theorem renamed_eq_closer_iff {t : Token} : t.renamed g = .closer ↔ t = .closer := by
  cases t <;> simp [Token.renamed]

/-- Different tokens stay different. -/
theorem Renames.token_injective (hg : Renames g) : Function.Injective (Token.renamed g) := by
  intro t u h
  cases t <;> cases u <;> simp_all [Token.renamed, hg.injective.eq_iff]

/-- No sign for a group or a parenthesis is a word. -/
theorem Renames.text_eq (hg : Renames g) (t : Token) : (t.renamed g).text = g t.text := by
  cases t with
  | word => rfl
  | group => exact (hg.other "(...)" (by decide)).symm
  | opener => exact (hg.other "(" (by decide)).symm
  | closer => exact (hg.other ")" (by decide)).symm

/-- A renamed token names an operator if the old one does, and the same. -/
theorem Renames.operator?_eq (hg : Renames g) (t : Token) :
    (t.renamed g).operator? = t.operator? := by
  cases t with
  | word text =>
    refine Option.ext fun op => ?_
    rw [Token.renamed, Token.operator?, Token.operator?, Operator.ofSymbol?_eq_some_iff,
      Operator.ofSymbol?_eq_some_iff]
    conv_lhs => rw [← hg.symbol op]
    exact hg.injective.eq_iff
  | group | opener | closer => rfl

/-- Renaming does not move a parenthesis, so the text is cut at the same place. -/
theorem cutFirst?_renamed {t : Token} (ht : ∀ u : Token, u.renamed g = t ↔ u = t)
    (us : List Token) : cutFirst? t (us.map (Token.renamed g)) =
      (cutFirst? t us).map (Prod.map (List.map (Token.renamed g)) (List.map (Token.renamed g))) := by
  induction us with
  | nil => rfl
  | cons u us ih =>
    by_cases hu : u = t
    · have hu' : u.renamed g = t := (ht u).mpr hu
      simp [cutFirst?, hu, hu ▸ hu']
    · have hu' : u.renamed g ≠ t := fun h => hu ((ht u).mp h)
      simp [cutFirst?, hu, hu', ih, Function.comp_def]

theorem cutLast?_renamed {t : Token} (ht : ∀ u : Token, u.renamed g = t ↔ u = t)
    (us : List Token) : cutLast? t (us.map (Token.renamed g)) =
      (cutLast? t us).map (Prod.map (List.map (Token.renamed g)) (List.map (Token.renamed g))) := by
  rw [cutLast?, cutLast?, ← List.map_reverse, cutFirst?_renamed ht]
  simp [Function.comp_def]

theorem evens_map {α β : Type} (r : α → β) (xs : List α) : evens (xs.map r) = (evens xs).map r := by
  induction xs using evens.induct with
  | case1 => rfl
  | case2 x => rfl
  | case3 x y xs ih => simp [evens, ih]

theorem odds_map {α β : Type} (r : α → β) (xs : List α) : odds (xs.map r) = (odds xs).map r := by
  induction xs using odds.induct with
  | case1 => rfl
  | case2 x => rfl
  | case3 x y xs ih => simp [odds, ih]

/-- The joiners agree when they did before, and the same two are named when they do not. -/
theorem Renames.joinedBy_eq (hg : Renames g) (joiner : Token) (others : List Token) :
    joinedBy (joiner.renamed g) (others.map (Token.renamed g)) =
      renamedResult g id (joinedBy joiner others) := by
  have hfind : (others.map (Token.renamed g)).find? (· ≠ joiner.renamed g) =
      (others.find? (· ≠ joiner)).map (Token.renamed g) := by
    have hdiffers : (decide <| · ≠ joiner.renamed g) ∘ Token.renamed g = (decide <| · ≠ joiner) :=
      funext fun _ => decide_eq_decide.mpr (not_congr hg.token_injective.eq_iff)
    rw [List.find?_map, hdiffers]
  rw [joinedBy, joinedBy, hfind]
  cases others.find? (· ≠ joiner) with
  | some other => simp [renamedResult, Error.renamed, hg.text_eq]
  | none =>
    simp only [Option.map_none, hg.operator?_eq, hg.text_eq]
    cases joiner.operator? <;> rfl

/-! ## Groups -/

/-- Work on a store with renamed keys does what other work does on the store itself. -/
def Mirrors {α β : Type} (g : String → String) (r : α → β) (x : Compile α) (y : Compile β) : Prop :=
  ∀ store : Store, y.run (store.renamed g) =
    renamedResult g (Prod.map r (Store.renamed g)) (x.run store)

section Mirrors

variable {α β γ δ : Type} {r : α → β} {r' : γ → δ} {x : Compile α} {y : Compile β}

theorem mirrors_pure (r : α → β) (a : α) : Mirrors g r (pure a) (pure (r a)) :=
  fun _ => rfl

theorem mirrors_throw (r : α → β) (e : Error) : Mirrors g r (throw e) (throw (e.renamed g)) :=
  fun _ => rfl

theorem mirrors_lift {a : Except Error α} {b : Except Error β} (h : b = renamedResult g r a) :
    Mirrors g r (liftM a) (liftM b) := by
  intro store
  rw [h]
  cases a <;> rfl

/-- Two pieces of work that mirror each other may be followed by two others that do. -/
theorem Mirrors.bind {f : α → Compile γ} {f' : β → Compile δ} (h : Mirrors g r x y)
    (hf : ∀ a, Mirrors g r' (f a) (f' (r a))) : Mirrors g r' (x >>= f) (y >>= f') := by
  intro store
  cases hx : x.run store with
  | error e =>
    have hy : y.run (store.renamed g) = .error (e.renamed g) := by rw [h store, hx]; rfl
    rw [run_bind_error hx, run_bind_error hy]
    rfl
  | ok p =>
    obtain ⟨a, next⟩ := p
    have hy : y.run (store.renamed g) = .ok (r a, next.renamed g) := by rw [h store, hx]; rfl
    rw [run_bind_ok hx, run_bind_ok hy]
    exact hf a next

end Mirrors

/-- Taking a condition out mirrors taking the renamed one out, or neither is there. -/
theorem mirrors_take (i : Nat) :
    Mirrors g (Condition.renamed g) (Store.take i) (Store.take i) := by
  intro store
  have hplace : (store.renamed g).places[i]? =
      store.places[i]?.map (Option.map (Condition.renamed g)) := Array.getElem?_map
  show (store.renamed g).take i = renamedResult g _ (store.take i)
  rw [Store.take, Store.take, hplace]
  rcases store.places[i]? with _ | _ | c
  · rfl
  · rfl
  · simp [renamedResult, Store.renamed]

/-- An operand gives the renamed condition. -/
theorem mirrors_resolve (t : Token) :
    Mirrors g (Condition.renamed g) t.resolve (t.renamed g).resolve := by
  cases t with
  | word text => exact mirrors_pure _ (Condition.key text)
  | group i => exact mirrors_take i
  | opener => exact mirrors_throw _ .unbalanced
  | closer => exact mirrors_throw _ .unbalanced

theorem mirrors_resolveAll (ts : List Token) : Mirrors g (List.map (Condition.renamed g))
    (ts.mapM Token.resolve) ((ts.map (Token.renamed g)).mapM Token.resolve) := by
  induction ts with
  | nil => exact mirrors_pure _ []
  | cons t ts ih =>
    rw [List.map_cons, List.mapM_cons, List.mapM_cons]
    exact (mirrors_resolve t).bind fun c => ih.bind fun cs => mirrors_pure _ (c :: cs)

/-- A group of renamed items has the old condition, renamed, or the old fault. -/
theorem Renames.mirrors_compile (hg : Renames g) (ts : List Token) :
    Mirrors g (Condition.renamed g) (compile ts) (compile (ts.map (Token.renamed g))) := by
  match ts with
  | [] => exact mirrors_throw _ (.evenItems 0)
  | [t] => exact mirrors_resolve t
  | t :: u :: ts =>
    -- the number of items is the same, so both fail for it or neither does
    rcases Nat.mod_two_eq_zero_or_one ts.length with heven | hodd
    · simp only [List.map_cons, compile, List.length_map, heven, if_true]
      exact mirrors_throw _ (.evenItems (ts.length + 2))
    · have hodd' : (ts.map (Token.renamed g)).length % 2 = 1 := by rwa [List.length_map]
      rw [List.map_cons, List.map_cons, compile_of_odd hodd, compile_of_odd hodd', odds_map,
        evens_map, ← List.map_cons]
      refine (mirrors_lift (hg.joinedBy_eq u (odds ts))).bind fun op => ?_
      refine (mirrors_resolveAll (t :: evens ts)).bind fun cs => ?_
      -- the operands are renamed one by one
      have hgroup : (Condition.group op cs).renamed g =
          .group op (cs.map (Condition.renamed g)) := by
        rw [Condition.renamed, Condition.renamedAll_eq_map]
      rw [id, ← hgroup]
      exact mirrors_pure _ (Condition.group op cs)

/-! ## The work -/

namespace Work

variable {w : Work}

theorem root_of_ne (h : ∀ i, w.tokens ≠ [.group i]) : w.root = .error .unbalanced := by
  unfold root
  split
  · rename_i i hi
    exact absurd hi (h i)
  · rfl

/-- What is taken out at the end of the work is renamed. -/
theorem take_renamed (store : Store) (i : Nat) : ((store.renamed g).take i).map Prod.fst =
    renamedResult g (Condition.renamed g) ((store.take i).map Prod.fst) := by
  have htake : (store.renamed g).take i =
      renamedResult g (Prod.map (Condition.renamed g) (Store.renamed g)) (store.take i) :=
    mirrors_take i store
  rw [htake]
  cases store.take i <;> rfl

/-- The check at the end of the work finds the renamed condition, or fails as before. -/
theorem root_renamed (w : Work) :
    (w.renamed g).root = renamedResult g (Condition.renamed g) w.root := by
  by_cases hsingle : ∃ i, w.tokens = [.group i]
  · obtain ⟨i, hi⟩ := hsingle
    have hi' : (w.renamed g).tokens = [.group i] := by rw [renamed, hi]; rfl
    rw [root, root, hi, hi']
    exact take_renamed w.store i
  · have hother : ∀ i, w.tokens ≠ [.group i] := fun i hi => hsingle ⟨i, hi⟩
    have hother' : ∀ i, (w.renamed g).tokens ≠ [.group i] := by
      intro i hi
      obtain ⟨t, ht, htoken⟩ := List.map_eq_singleton_iff.mp hi
      -- only a placeholder is renamed to a placeholder
      cases t <;> simp [Token.renamed] at htoken
      exact hother _ ht
    rw [root_of_ne hother, root_of_ne hother']
    rfl

/-- So does the work that ends at an unclosed parenthesis. -/
theorem latest_renamed (w : Work) :
    (w.renamed g).latest = renamedResult g (Condition.renamed g) w.latest := by
  have hsize : (w.renamed g).store.size = w.store.size := Array.size_map
  rw [latest, latest, hsize]
  cases w.store.size with
  | zero => rfl
  | succ k => exact take_renamed w.store k

theorem push_renamed (store : Store) (c : Condition) :
    (store.renamed g).push (c.renamed g) = ((store.push c).1, (store.push c).2.renamed g) := by
  simp [Store.push, Store.renamed, Store.size]

/-- One step on renamed words is the step on the old ones, renamed. -/
theorem step_renamed (hg : Renames g) (w : Work) : (w.renamed g).step =
    match w.step with
    | .ok next => .ok (next.renamed g)
    | .error outcome => .error (renamedResult g (Condition.renamed g) outcome) := by
  have hlast := cutLast?_renamed (g := g) (fun _ => renamed_eq_opener_iff) w.tokens
  -- both texts are cut at the same parentheses, or the work ends for both
  cases hcut : cutLast? .opener w.tokens with
  | none =>
    rw [hcut, Option.map_none] at hlast
    simp only [step, renamed, hlast, hcut]
    exact congrArg Except.error (root_renamed w)
  | some p =>
    obtain ⟨before, after⟩ := p
    rw [hcut, Option.map_some] at hlast
    have hfirst := cutFirst?_renamed (g := g) (fun _ => renamed_eq_closer_iff) after
    cases hcut' : cutFirst? .closer after with
    | none =>
      rw [hcut', Option.map_none] at hfirst
      simp only [step, renamed, hlast, hcut, Prod.map_apply, hfirst, hcut']
      exact congrArg Except.error (latest_renamed w)
    | some p =>
      obtain ⟨items, rest⟩ := p
      rw [hcut', Option.map_some] at hfirst
      have hcompile := hg.mirrors_compile items w.store
      simp only [step, renamed, hlast, hcut, Prod.map_apply, hfirst, hcut', hcompile]
      cases (compile items).run w.store with
      | error e => rfl
      | ok p =>
        obtain ⟨c, store⟩ := p
        -- the new placeholder has the same index in both stores
        simp only [renamedResult, Prod.map_apply, push_renamed]
        simp [Store.push, Token.renamed]

/-- Compiling renamed words is compiling the old ones, and renaming the outcome. -/
theorem run_renamed (hg : Renames g) (w : Work) :
    (w.renamed g).run = renamedResult g (Condition.renamed g) w.run := by
  induction w using Work.run.induct with
  | case1 w next hstep ih =>
    rw [run_eq, run_eq w, step_renamed hg, hstep]
    exact ih
  | case2 w outcome hstep =>
    rw [run_eq, run_eq w, step_renamed hg, hstep]

end Work

/-- Compiling renamed tokens is compiling the old ones, and renaming the outcome. -/
theorem parseTokens_renamed (hg : Renames g) (ts : List Token) :
    parseTokens (ts.map (Token.renamed g)) =
      renamedResult g (Condition.renamed g) (parseTokens ts) := by
  rw [parseTokens, parseTokens, ← Work.run_renamed hg]
  congr 1
  simp [Work.renamed, inParens, Token.renamed, Store.renamed]

/-! ## Texts -/

/-- The characters of a word, and those of its new one. -/
def renamedWord (g : String → String) : List Char → List Char
  | [] => []
  | word => (g (String.ofList word)).toList

/-- The end of a text, read up to some place in it: the characters at this place that go on in
a word, and the renamed text after them. -/
def renamedFrom (g : String → String) : List Char → List Char × List Char
  | [] => ([], [])
  | c :: cs =>
    let (word, rest) := renamedFrom g cs
    if WordChar c then (c :: word, rest) else ([], c :: (renamedWord g word ++ rest))

/-- A text with its words renamed, and all blanks and parentheses left where they are. -/
def renamedText (g : String → String) (text : String) : String :=
  let (word, rest) := renamedFrom g text.toList
  String.ofList (renamedWord g word ++ rest)

variable {c : Char} {cs : List Char}

theorem renamedFrom_wordChar (h : WordChar c) : renamedFrom g (c :: cs) =
    (c :: (renamedFrom g cs).1, (renamedFrom g cs).2) := by
  simp [renamedFrom, h]

/-- Any other character stays as it is and ends the word in front of it. -/
theorem renamedFrom_other (h : ¬ WordChar c) : renamedFrom g (c :: cs) =
    ([], c :: (renamedWord g (renamedFrom g cs).1 ++ (renamedFrom g cs).2)) := by
  simp [renamedFrom, h]

/-- The characters of a word go on with the word behind them. -/
theorem renamedFrom_append {w : List Char} (hw : ∀ c ∈ w, WordChar c) : renamedFrom g (w ++ cs) =
    (w ++ (renamedFrom g cs).1, (renamedFrom g cs).2) := by
  induction w with
  | nil => rfl
  | cons c w ih =>
    rw [List.forall_mem_cons] at hw
    rw [List.cons_append, renamedFrom_wordChar hw.1, ih hw.2]
    rfl

/-- Where no word goes on, none goes on in the renamed text. -/
theorem renamedFrom_of_wordEnds (h : WordEnds cs) :
    (renamedFrom g cs).1 = [] ∧ WordEnds (renamedFrom g cs).2 := by
  cases cs with
  | nil => exact ⟨rfl, h⟩
  | cons c cs =>
    have hother : ¬ WordChar c := h c rfl
    rw [renamedFrom_other hother]
    exact ⟨rfl, wordEnds_cons hother⟩

/-- A word of a text is replaced by the new one. -/
theorem renamedWord_of_clean {text : String} (h : CleanWord text) :
    renamedWord g text.toList = (g text).toList := by
  cases htext : text.toList with
  | nil => exact absurd (String.toList_eq_nil_iff.mp htext) h.1
  | cons c w =>
    rw [renamedWord, ← htext, String.ofList_toList]
    exact List.cons_ne_nil c w

/-- A text spells the renamed tokens once its words are renamed. -/
theorem Spells.renamed {ts : List Token} (hg : ∀ text, CleanWord text → CleanWord (g text))
    (h : Spells ts cs) : Spells (ts.map (Token.renamed g))
      (renamedWord g (renamedFrom g cs).1 ++ (renamedFrom g cs).2) := by
  induction h with
  | nil => exact .nil
  | blank hc _ ih =>
    rw [renamedFrom_other (not_wordChar_of_isBlank hc)]
    exact .blank hc ih
  | opener _ ih =>
    rw [renamedFrom_other (by decide)]
    exact .opener ih
  | closer _ ih =>
    rw [renamedFrom_other (by decide)]
    exact .closer ih
  | word hw hends _ ih =>
    -- no word goes on behind this one, so its characters are a whole word of the text
    obtain ⟨hnil, hends'⟩ := renamedFrom_of_wordEnds (g := g) hends
    rw [hnil] at ih
    rw [renamedFrom_append hw.2, hnil, List.append_nil, renamedWord_of_clean hw]
    exact .word (hg _ hw) hends' ih

/-- A text with its words renamed has the old tokens, renamed. -/
theorem tokens_renamedText (hg : ∀ text, CleanWord text → CleanWord (g text)) (text : String) :
    tokens (renamedText g text) = (tokens text).map (Token.renamed g) := by
  rw [tokens_eq_iff, renamedText, String.toList_ofList]
  exact (spells_tokens text).renamed hg

/-- Renaming the words of an expression, different words differently and the operators not at all,
renames the words in the outcome and does nothing else: in an error too, where the sign for a group
stays. A text of renamed words is one in which they stand where the old ones stood. -/
theorem parse_renamed (f : Word → Word) (hf : Function.Injective f)
    (hop : ∀ op, f (.ofOperator op) = .ofOperator op) (text : String) :
    let g := Word.extend f
    tokens (renamedText g text) = (tokens text).map (Token.renamed g) ∧ g "(...)" = "(...)" ∧
      Condition.parse (renamedText g text) =
        renamedResult g (Condition.renamed g) (Condition.parse text) := by
  intro g
  have hg : Renames g := renames_extend hf hop
  have htokens : tokens (renamedText g text) = (tokens text).map (Token.renamed g) :=
    tokens_renamedText (fun _ h => (cleanWord_extend_iff f).mpr h) text
  refine ⟨htokens, hg.other _ (by decide), ?_⟩
  rw [Condition.parse, htokens, parseTokens_renamed hg]
  rfl

/-- A word that looks like a placeholder changes places with a name, as a key and in an error. -/
theorem parse_renamed_placeholder_like :
    let f : Word → Word := Equiv.swap ⟨"?0", by decide⟩ ⟨"a", by decide⟩
    let g := Word.extend f
    Function.Injective f ∧ (∀ op, f (.ofOperator op) = .ofOperator op) ∧
      renamedText g "?0 && (a || b)" = "a && (?0 || b)" ∧
      Condition.parse (renamedText g "?0 && (a || b)") =
        .ok (.group .and [.key "a", .group .or [.key "?0", .key "b"]]) ∧
      renamedText g "(x)\ta (y)(?0)z" = "(x)\t?0 (y)(a)z" ∧
      Condition.parse (renamedText g "(x)\ta (y)(?0)z") = .error (.mixedOperators "?0" "(...)") := by
  intro f g
  have hf : Function.Injective f := Equiv.injective _
  have hop : ∀ op, f (.ofOperator op) = .ofOperator op := by
    rintro (_ | _) <;> decide
  have hparts : tokens "?0 && (a || b)" = Part.tokensAll
      [.word "?0", .word "&&", .group [.word "a", .word "||", .word "b"]] := by decide
  have hparts' : tokens "(x)\ta (y)(?0)z" = Part.tokensAll [.group [.word "x"], .word "a",
      .group [.word "y"], .group [.word "?0"], .word "z"] := by decide
  have hold := parse_of_condition hparts rfl
  have hold' := parse_of_fault hparts' (by decide) rfl
  obtain ⟨-, -, hnew⟩ := parse_renamed f hf hop "?0 && (a || b)"
  obtain ⟨-, -, hnew'⟩ := parse_renamed f hf hop "(x)\ta (y)(?0)z"
  rw [hold] at hnew
  rw [hold'] at hnew'
  exact ⟨hf, hop, by decide, hnew, by decide, hnew'⟩

end Expression

end KeyRules
