import KeyRules.Proofs.Grammar
import Mathlib.Data.List.Forall2

/-!
# KeyRules — placeholders and what they stand for

While an expression is compiled, a placeholder stands for a group of the text, and the store holds
the group's condition until it is taken out. `Stands` says so for one token and one part. Compiling
a group on its items then does what the group's parts call for: the fault of the parts, or their
condition, with the placeholders among the items used up and all others left alone.

* `Store.at?`, `Store.Emptied` — what a store holds, and what is left when some of it was taken.
* `indices`, `Stands` — placeholders and the parts they stand for.
* `Token.value?`, `resolveAll_of_values` — the conditions of operands, and taking them out.
* `compile_of_values`, `compile_of_stands` — compiling the items of a group.
-/

namespace KeyRules.Expression

/-! ## What a store holds -/

namespace Store

/-- The condition that waits at an index. -/
def at? (store : Store) (i : Nat) : Option Condition :=
  (store.places[i]?).join

/-- Some places of the store were emptied, and all others are as they were. -/
structure Emptied (store next : Store) (ks : List Nat) : Prop where
  size : next.size = store.size
  at? : ∀ k, next.at? k = if k ∈ ks then none else store.at? k

variable {store next last : Store} {c : Condition} {i k : Nat} {ks ls : List Nat}

/-- Only a place that was filled holds a condition. -/
theorem lt_size_of_at? (h : store.at? i = some c) : i < store.size := by
  by_contra hge
  have hnone : store.places[i]? = none := Array.getElem?_eq_none (Nat.le_of_not_lt hge)
  simp [at?, hnone] at h

/-- What is put in waits at the next place. -/
theorem at?_push : (store.push c).2.at? k = if k = store.size then some c else store.at? k := by
  by_cases h : k = store.size
  · simp [push, at?, size, h]
  · have hplace : (store.places.push (some c))[k]? = store.places[k]? := by
      rw [Array.getElem?_push]
      exact if_neg h
    simp [push, at?, hplace, h]

theorem size_push : (store.push c).2.size = store.size + 1 := by
  simp [push, size]

theorem Emptied.refl (store : Store) : store.Emptied store [] :=
  ⟨rfl, fun _ => rfl⟩

/-- A place is empty at the end if it was emptied first or last. -/
theorem Emptied.trans (h : store.Emptied next ks) (h' : next.Emptied last ls) :
    store.Emptied last (ks ++ ls) where
  size := h'.size.trans h.size
  at? k := by
    rw [h'.at?, h.at?]
    by_cases hk : k ∈ ks <;> by_cases hl : k ∈ ls <;> simp [hk, hl]

theorem Emptied.at?_of_not_mem (h : store.Emptied next ks) (hk : k ∉ ks) :
    next.at? k = store.at? k := by
  rw [h.at?, if_neg hk]

/-- Taking a condition out empties its own place only. -/
theorem take_of_at? (h : store.at? i = some c) :
    ∃ next, store.take i = .ok (c, next) ∧ store.Emptied next [i] := by
  have hplace : store.places[i]? = some (some c) := Option.join_eq_some_iff.mp h
  refine ⟨⟨store.places.setIfInBounds i none⟩, by simp [take, hplace], by simp [size], ?_⟩
  intro k
  have hlt : i < store.places.size := lt_size_of_at? h
  by_cases hk : k = i
  · simp [Store.at?, hk, hlt]
  · simp [Store.at?, hk, Array.getElem?_setIfInBounds_ne (Ne.symm hk)]

end Store

/-! ## Placeholders -/

/-- The index of a placeholder. -/
def Token.index? : Token → Option Nat
  | group index => some index
  | _ => none

/-- The indices of the placeholders in a text, from left to right. -/
def indices (ts : List Token) : List Nat :=
  ts.filterMap Token.index?

/-- The condition of an operand: a word asks for a key, and a placeholder gives what waits for
it. -/
def Token.value? (store : Store) : Token → Option Condition
  | word text => some (.key text)
  | group index => store.at? index
  | opener | closer => none

/-- A token stands for a part: a word for itself, and a placeholder for a group whose condition is
in the store. -/
inductive Stands (store : Store) : Token → Part → Prop where
  | word (text : String) : Stands store (.word text) (.word text)
  | group {i : Nat} {ps : List Part} {c : Condition} (hat : store.at? i = some c)
      (hc : groupCondition? ps = some c) : Stands store (.group i) (.group ps)

variable {store next : Store} {t u : Token} {p q : Part} {ts us : List Token} {ps qs : List Part}

@[simp] theorem indices_nil : indices [] = [] := rfl

@[simp] theorem indices_word (text : String) : indices (.word text :: ts) = indices ts := rfl

@[simp] theorem indices_group (i : Nat) : indices (.group i :: ts) = i :: indices ts := rfl

@[simp] theorem indices_opener : indices (.opener :: ts) = indices ts := rfl

@[simp] theorem indices_closer : indices (.closer :: ts) = indices ts := rfl

theorem indices_append : indices (ts ++ us) = indices ts ++ indices us :=
  List.filterMap_append

/-- A part of a text has part of its placeholders, in the same order. -/
theorem indices_sublist (h : ts.Sublist us) : (indices ts).Sublist (indices us) :=
  h.filterMap _

theorem indices_cons : indices (t :: ts) = indices [t] ++ indices ts :=
  @indices_append [t] ts

theorem forall_mem_indices_cons {P : Nat → Prop} :
    (∀ k ∈ indices (t :: ts), P k) ↔ (∀ k ∈ indices [t], P k) ∧ ∀ k ∈ indices ts, P k := by
  rw [indices_cons, List.forall_mem_append]

/-- A token is shown in an error text as the part it stands for. -/
theorem Stands.text_eq (h : Stands store t p) : t.text = p.label := by
  cases h <;> rfl

/-- A token names an operator if its part does; a placeholder never does. The operator of a group
can so be read off the parts, with the groups in it already done. -/
theorem Stands.operator?_eq (h : Stands store t p) : t.operator? = p.operator? := by
  cases h <;> rfl

/-- What a token stands for does not depend on the rest of the store. -/
theorem Stands.of_agrees (h : Stands store t p)
    (hat : ∀ k ∈ indices [t], next.at? k = store.at? k) : Stands next t p := by
  cases h with
  | word text => exact Stands.word text
  | group h hc => exact Stands.group ((hat _ (by simp)).trans h) hc

/-! ## Runs -/

variable {α β : Type} {x : Compile α} {f : α → Compile β} {a : α} {e : Error} {c : Condition}
  {cs : List Condition}

/-- Work goes on in the store that its first part leaves. -/
theorem run_bind_ok (h : x.run store = .ok (a, next)) : (x >>= f).run store = (f a).run next := by
  rw [StateT.run_bind, h]
  rfl

/-- An error of the first part is the error of the whole. -/
theorem run_bind_error (h : x.run store = .error e) : (x >>= f).run store = .error e := by
  rw [StateT.run_bind, h]
  rfl

theorem run_lift_ok {x : Except Error α} (h : x = .ok a) :
    (liftM x : Compile α).run store = .ok (a, store) := by
  rw [h]
  rfl

theorem run_lift_error {x : Except Error α} (h : x = .error e) :
    (liftM x : Compile α).run store = .error e := by
  rw [h]
  rfl

/-! ## Operands -/

/-- Other placeholders do not count for what an operand is. -/
theorem value?_of_emptied {ks : List Nat} (h : store.Emptied next ks)
    (hfree : ∀ k ∈ indices [t], k ∉ ks) : t.value? next = t.value? store := by
  cases t with
  | group k => exact h.at?_of_not_mem (hfree k (by simp))
  | word | opener | closer => rfl

/-- The same for several operands. -/
theorem values_of_emptied {ks : List Nat} (h : store.Emptied next ks)
    (hfree : ∀ k ∈ indices ts, k ∉ ks)
    (hvalues : List.Forall₂ (fun t c => t.value? store = some c) ts cs) :
    List.Forall₂ (fun t c => t.value? next = some c) ts cs := by
  induction hvalues with
  | nil => exact .nil
  | cons hc _ ih =>
    obtain ⟨hhead, htail⟩ := forall_mem_indices_cons.mp hfree
    exact .cons ((value?_of_emptied h hhead).trans hc) (ih htail)

/-- An operand that has a condition is resolved to it, and its placeholder is used up. -/
theorem resolve_of_value (h : t.value? store = some c) :
    ∃ next, t.resolve.run store = .ok (c, next) ∧ store.Emptied next (indices [t]) := by
  cases t with
  | word text =>
    obtain rfl := Option.some.inj h
    exact ⟨store, rfl, .refl store⟩
  | group k => exact Store.take_of_at? h
  | opener | closer => cases h

/-- Operands with different placeholders are taken out of the store one after another, and each
still has its condition when its turn comes. -/
theorem resolveAll_of_values (h : List.Forall₂ (fun t c => t.value? store = some c) ts cs)
    (hnodup : (indices ts).Nodup) :
    ∃ next, (ts.mapM Token.resolve).run store = .ok (cs, next) ∧
      store.Emptied next (indices ts) := by
  induction ts generalizing store cs with
  | nil =>
    cases h
    exact ⟨store, rfl, .refl store⟩
  | cons t ts ih =>
    cases h with
    | @cons _ c _ cs hc hcs =>
      rw [indices_cons, List.nodup_append] at hnodup
      obtain ⟨mid, hrun, hmid⟩ := resolve_of_value hc
      -- the first operand leaves the others in the store
      have hcs' : List.Forall₂ (fun t c => t.value? mid = some c) ts cs :=
        values_of_emptied hmid (fun k hk hk' => hnodup.2.2 k hk' k hk rfl) hcs
      obtain ⟨next, hruns, hnext⟩ := ih hcs' hnodup.2.1
      refine ⟨next, ?_, ?_⟩
      · rw [List.mapM_cons, run_bind_ok hrun, run_bind_ok hruns]
        rfl
      · rw [indices_cons]
        exact hmid.trans hnext

/-- A token that stands for a part has the condition of the part. -/
theorem Stands.value?_eq (h : Stands store t p) : t.value? store = p.condition? := by
  cases h with
  | word text => rfl
  | group hat hc => exact hat.trans hc.symm

theorem Stands.exists_value (h : Stands store t p) : ∃ c, t.value? store = some c := by
  cases h with
  | word text => exact ⟨_, rfl⟩
  | group hat _ => exact ⟨_, hat⟩

/-- The operands of a group have the conditions of the parts they stand for. -/
theorem exists_values_of_stands (h : List.Forall₂ (Stands store) ts ps) :
    ∃ cs, List.Forall₂ (fun t c => t.value? store = some c) ts cs ∧
      ps.mapM Part.condition? = some cs := by
  induction h with
  | nil => exact ⟨[], .nil, rfl⟩
  | cons h _ ih =>
    obtain ⟨c, hc⟩ := h.exists_value
    obtain ⟨cs, hcs, hps⟩ := ih
    exact ⟨c :: cs, .cons hc hcs, by simp [← h.value?_eq, hc, hps]⟩

/-! ## Joiners -/

theorem evens_sublist {α : Type} (xs : List α) : (evens xs).Sublist xs := by
  induction xs using evens.induct with
  | case1 => exact .slnil
  | case2 x => exact .refl _
  | case3 x y xs ih => exact .cons_cons x (.cons y ih)

theorem odds_sublist {α : Type} (xs : List α) : (odds xs).Sublist xs := by
  induction xs using odds.induct with
  | case1 => exact .slnil
  | case2 x => exact List.nil_sublist _
  | case3 x y xs ih => exact .cons x (.cons_cons y ih)

/-- What is related item by item is related operand by operand. -/
theorem forall₂_evens {α β : Type} {R : α → β → Prop} {xs : List α} {ys : List β}
    (h : List.Forall₂ R xs ys) : List.Forall₂ R (evens xs) (evens ys) := by
  induction xs using evens.induct generalizing ys with
  | case1 =>
    cases h
    exact .nil
  | case2 x =>
    rcases h with _ | ⟨hx, ⟨⟩⟩
    exact .cons hx .nil
  | case3 x y xs ih =>
    rcases h with _ | ⟨hx, _ | ⟨_, hxs⟩⟩
    exact .cons hx (ih hxs)

/-- What is related item by item is related joiner by joiner. -/
theorem forall₂_odds {α β : Type} {R : α → β → Prop} {xs : List α} {ys : List β}
    (h : List.Forall₂ R xs ys) : List.Forall₂ R (odds xs) (odds ys) := by
  induction xs using odds.induct generalizing ys with
  | case1 =>
    cases h
    exact .nil
  | case2 x =>
    rcases h with _ | ⟨_, ⟨⟩⟩
    exact .nil
  | case3 x y xs ih =>
    rcases h with _ | ⟨_, _ | ⟨hy, hxs⟩⟩
    exact .cons hy (ih hxs)

/-- Where all joiners are words, the placeholders of a group are its operands. -/
theorem indices_evens (hjoiners : ∀ t ∈ odds ts, ∃ text, t = .word text) :
    indices (evens ts) = indices ts := by
  induction ts using evens.induct with
  | case1 => rfl
  | case2 t => rfl
  | case3 t u ts ih =>
    rw [odds, List.forall_mem_cons] at hjoiners
    obtain ⟨⟨text, rfl⟩, hrest⟩ := hjoiners
    rw [evens, indices_cons, ih hrest, @indices_cons t (_ :: ts), indices_word]

/-- The joiners of a group that has an operator are all the symbol of the operator. -/
theorem joinedBy_eq_ok {op : Operator} (h : joinedBy t us = .ok op) :
    t = .word op.symbol ∧ ∀ u ∈ us, u = t := by
  unfold joinedBy at h
  split at h
  · cases h
  · rename_i hfind
    split at h
    · rename_i op' hop
      obtain rfl := Except.ok.inj h
      refine ⟨?_, by simpa using hfind⟩
      cases t with
      | word text => rw [Operator.ofSymbol?_eq_some_iff.mp hop]
      | group | opener | closer => cases hop
    · cases h

/-- Tokens with different placeholders differ just when their parts do. -/
theorem Stands.ne_iff_differs (ht : Stands store t p) (hu : Stands store u q)
    (hnodup : (indices [t, u]).Nodup) : u ≠ t ↔ p.differs q = true := by
  cases ht with
  | word a =>
    cases hu with
    | word b => simp [Part.differs, eq_comm (a := b)]
    | group => simp [Part.differs]
  | group =>
    cases hu with
    | word b => simp [Part.differs]
    | group =>
      -- two groups never share a placeholder, as their indices differ
      simp only [indices_group, indices_nil, List.nodup_cons, List.mem_singleton] at hnodup
      simpa [Part.differs, eq_comm] using hnodup.1

/-- The first token that differs from a joiner stands for the first part that does. -/
theorem find?_of_stands (ht : Stands store t p) (h : List.Forall₂ (Stands store) us qs)
    (hnodup : (indices (t :: us)).Nodup) :
    (us.find? (· ≠ t)).map Token.text = (qs.find? p.differs).map Part.label := by
  induction h with
  | nil => rfl
  | @cons u q us qs hu _ ih =>
    have hpair : (indices [t, u]).Nodup :=
      hnodup.sublist (indices_sublist (by simp))
    have hrest : (indices (t :: us)).Nodup :=
      hnodup.sublist (indices_sublist (by simp))
    -- the joiner and this item have different placeholders, so they differ just when their parts do
    have hiff := ht.ne_iff_differs hu hpair
    by_cases hne : u = t
    · have hsame : p.differs q = false := by
        rw [← Bool.not_eq_true, ← hiff]
        exact not_not.mpr hne
      simpa [List.find?_cons, hne, hsame] using ih hrest
    · simp [hne, hiff.mp hne, hu.text_eq]

/-- The joiners of the items have the fault of the joiners they stand for, or the same operator. -/
theorem joinedBy_of_stands (ht : Stands store t p) (h : List.Forall₂ (Stands store) us qs)
    (hnodup : (indices (t :: us)).Nodup) :
    match joinerFault p qs with
    | some e => joinedBy t us = .error e
    | none => ∃ op, p.operator? = some op ∧ joinedBy t us = .ok op := by
  have hfind := find?_of_stands ht h hnodup
  cases hq : qs.find? p.differs with
  | some q =>
    rw [hq, Option.map_some, Option.map_eq_some_iff] at hfind
    -- the same two are named in the error
    obtain ⟨u, hu, htext⟩ := hfind
    simp only [joinerFault, hq, joinedBy, hu, htext, ht.text_eq]
  | none =>
    rw [hq, Option.map_none, Option.map_eq_none_iff] at hfind
    -- all joiners agree, and what is left is whether they are an operator
    cases hop : p.operator? with
    | none => simp only [joinerFault, hq, hop, joinedBy, hfind, ht.operator?_eq, ht.text_eq]
    | some op =>
      simp only [joinerFault, hq, hop, joinedBy, hfind, ht.operator?_eq]
      exact ⟨op, rfl, rfl⟩

/-! ## Groups -/

/-- An odd number of items is compiled in two parts: the operator, and then the operands. -/
theorem compile_of_odd (hodd : ts.length % 2 = 1) :
    compile (t :: u :: ts) = (liftM (joinedBy u (odds ts)) : Compile Operator) >>= fun op =>
      (t :: evens ts).mapM Token.resolve >>= fun cs => pure (.group op cs) := by
  simp [compile, hodd]

/-- An odd number of items with an operator between them becomes a group of the operands, and all
placeholders among the items are used up. -/
theorem compile_of_values {op : Operator} (hodd : ts.length % 2 = 1)
    (hjoined : joinedBy u (odds ts) = .ok op)
    (hvalues : List.Forall₂ (fun t c => t.value? store = some c) (t :: evens ts) cs)
    (hnodup : (indices (t :: u :: ts)).Nodup) :
    ∃ next, (compile (t :: u :: ts)).run store = .ok (.group op cs, next) ∧
      store.Emptied next (indices (t :: u :: ts)) := by
  -- the joiners are words, so the operands have all the placeholders
  have hindices : indices (t :: evens ts) = indices (t :: u :: ts) := by
    obtain ⟨hu, hall⟩ := joinedBy_eq_ok hjoined
    refine @indices_evens (t :: u :: ts) ?_
    rw [odds, List.forall_mem_cons]
    exact ⟨⟨_, hu⟩, fun v hv => ⟨_, (hall v hv).trans hu⟩⟩
  rw [← hindices] at hnodup ⊢
  obtain ⟨next, hruns, hemptied⟩ := resolveAll_of_values hvalues hnodup
  refine ⟨next, ?_, hemptied⟩
  rw [compile_of_odd hodd, run_bind_ok (run_lift_ok hjoined), run_bind_ok hruns]
  rfl

/-- Compiling a group on its items does what its parts call for. -/
theorem compile_of_stands (h : List.Forall₂ (Stands store) ts ps) (hnodup : (indices ts).Nodup) :
    match fault ps with
    | some e => (compile ts).run store = .error e
    | none => ∃ c next, (compile ts).run store = .ok (c, next) ∧ groupCondition? ps = some c ∧
        store.Emptied next (indices ts) := by
  -- no item, one item, or a first operand and a joiner
  rcases h with _ | ⟨ht, _ | ⟨hu, hrest⟩⟩
  · rfl
  · obtain ⟨c, hc⟩ := ht.exists_value
    obtain ⟨next, hrun, hemptied⟩ := resolve_of_value hc
    exact ⟨c, next, hrun, ht.value?_eq.symm.trans hc, hemptied⟩
  rename_i t p u q us qs
  have hlen := hrest.length_eq
  by_cases heven : qs.length % 2 = 0
  · simp only [fault, compile, hlen, heven, if_true]
    rfl
  have hodd : us.length % 2 = 1 := by omega
  have hjoiners : (indices (u :: odds us)).Nodup :=
    hnodup.sublist (indices_sublist (.cons _ (.cons_cons _ (odds_sublist us))))
  -- items and parts have the same joiner, or show the same two that differ
  have hjoin := joinedBy_of_stands hu (forall₂_odds hrest) hjoiners
  simp only [fault, heven, if_false]
  cases hfault : joinerFault q (odds qs) with
  | some e =>
    rw [hfault] at hjoin
    rw [compile_of_odd hodd]
    exact run_bind_error (run_lift_error hjoin)
  | none =>
    rw [hfault] at hjoin
    obtain ⟨op, hop, hjoined⟩ := hjoin
    obtain ⟨op', rfl, hall⟩ := joinerFault_eq_none_iff.mp hfault
    obtain ⟨cs, hvalues, hcs⟩ := exists_values_of_stands (.cons ht (forall₂_evens hrest))
    obtain ⟨next, hrun, hemptied⟩ := compile_of_values hodd hjoined hvalues hnodup
    refine ⟨.group op cs, next, hrun, ?_, hemptied⟩
    obtain rfl : op = op' := by
      rw [Part.operator?_eq_some_iff.mpr rfl] at hop
      exact (Option.some.inj hop).symm
    rw [groupCondition?_eq (by omega) hall, hcs]
    rfl

end KeyRules.Expression
