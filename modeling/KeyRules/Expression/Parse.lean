import KeyRules.Expression.Group

/-!
# KeyRules — expressions to conditions

An expression is compiled group by group. The whole text is put in parentheses. Then, again and
again, the last opening parenthesis and the first closing one after it bound a group without
groups inside: its items are compiled, the condition goes to the store, and a placeholder takes
the place of the group in the text.

The work ends when no opening parenthesis is left. Everything must then have become a single
placeholder, so a closing parenthesis that no opening one answers is an error. It ends earlier at
an opening parenthesis that no closing one answers: the outcome is the group that was done last,
and what stands before that parenthesis is not looked at.

* `Work` — a text with placeholders, and the store.
* `Work.step` — one group.
* `Condition.parse` — the condition of an expression.
-/

namespace KeyRules.Expression

/-- What compiling an expression gives. -/
abbrev Outcome := Except Error Condition

/-! ## Finding a group -/

/-- The tokens before and after the first occurrence of a token. -/
def cutFirst? (t : Token) : List Token → Option (List Token × List Token)
  | [] => none
  | u :: us =>
    if u = t then some ([], us)
    else (cutFirst? t us).map fun (before, after) => (u :: before, after)

/-- The tokens before and after the last occurrence of a token. -/
def cutLast? (t : Token) (us : List Token) : Option (List Token × List Token) :=
  (cutFirst? t us.reverse).map fun (after, before) => (before.reverse, after.reverse)

theorem cutFirst?_eq_none_iff {t : Token} {us : List Token} : cutFirst? t us = none ↔ t ∉ us := by
  induction us with
  | nil => simp [cutFirst?]
  | cons u us ih =>
    by_cases h : u = t
    · simp [cutFirst?, h]
    · simp [cutFirst?, h, ih, Ne.symm h]

/-- The cut is at the first such token: there is none in front of it. -/
theorem cutFirst?_eq_some_iff {t : Token} {us before after : List Token} :
    cutFirst? t us = some (before, after) ↔ us = before ++ t :: after ∧ t ∉ before := by
  induction us generalizing before with
  | nil => simp [cutFirst?]
  | cons u us ih =>
    by_cases h : u = t
    · cases before with
      | nil => simp [cutFirst?, h, eq_comm]
      | cons b before => simp [cutFirst?, h]; grind
    · cases before with
      | nil => simp [cutFirst?, h]
      | cons b before => simp [cutFirst?, h, ih]; grind

theorem cutLast?_eq_none_iff {t : Token} {us : List Token} : cutLast? t us = none ↔ t ∉ us := by
  simp [cutLast?, cutFirst?_eq_none_iff]

/-- The cut is at the last such token: there is none behind it. -/
theorem cutLast?_eq_some_iff {t : Token} {us before after : List Token} :
    cutLast? t us = some (before, after) ↔ us = before ++ t :: after ∧ t ∉ after := by
  have hcut : cutLast? t us = some (before, after) ↔
      cutFirst? t us.reverse = some (after.reverse, before.reverse) := by
    simp only [cutLast?, Option.map_eq_some_iff, Prod.exists, Prod.mk.injEq]
    constructor
    · rintro ⟨after', before', h, rfl, rfl⟩
      simpa using h
    · exact fun h => ⟨_, _, h, by simp⟩
  rw [hcut, cutFirst?_eq_some_iff, List.mem_reverse]
  simp [List.reverse_eq_iff]

/-! ## The work -/

/-- An expression that is being compiled. -/
structure Work where
  /-- The text, with a placeholder for every group that is done and still stands in it. -/
  tokens : List Token
  /-- The groups that are done. -/
  store : Store := {}
  deriving Repr

namespace Work

/-- The group that was done last. -/
def latest (w : Work) : Outcome :=
  match w.store.size with
  | 0 => .error .unbalanced
  | size + 1 => (w.store.take size).map Prod.fst

/-- The single group that everything has become part of. -/
def root (w : Work) : Outcome :=
  match w.tokens with
  | [.group index] => (w.store.take index).map Prod.fst
  | _ => .error .unbalanced

/-- Compiles the group that opens last. Work that is over throws its outcome. -/
def step (w : Work) : Except Outcome Work :=
  match cutLast? .opener w.tokens with
  | none => .error w.root
  | some (before, after) =>
    match cutFirst? .closer after with
    | none => .error w.latest
    | some (items, rest) =>
      match (compile items).run w.store with
      | .error e => .error (.error e)
      | .ok (c, store) =>
        let (index, store) := store.push c
        .ok { tokens := before ++ .group index :: rest, store }

/-- Every step removes one opening parenthesis. -/
theorem count_step {w w' : Work} (h : w.step = .ok w') :
    w'.tokens.count .opener < w.tokens.count .opener := by
  unfold step at h
  split at h
  · cases h
  · rename_i before after hlast
    split at h
    · cases h
    · rename_i items rest hfirst
      split at h
      · cases h
      · obtain ⟨hw, -⟩ := cutLast?_eq_some_iff.mp hlast
        obtain ⟨hafter, -⟩ := cutFirst?_eq_some_iff.mp hfirst
        cases h
        rw [hw, hafter, List.count_append, List.count_append, List.count_cons_self,
          List.count_cons_of_ne (by simp), List.count_append, List.count_cons_of_ne (by simp)]
        omega

/-- Compiles group after group until the work is over. -/
def run (w : Work) : Outcome :=
  match _ : w.step with
  | .ok next => next.run
  | .error outcome => outcome
termination_by w.tokens.count .opener
decreasing_by exact count_step ‹_›

end Work

/-- Compiles a sequence of tokens as if it stood in parentheses. -/
def parseTokens (ts : List Token) : Outcome :=
  Work.run { tokens := inParens ts }

end Expression

/-- Compiles an expression. -/
def Condition.parse (expression : String) : Except Error Condition :=
  Expression.parseTokens (Expression.tokens expression)

end KeyRules
