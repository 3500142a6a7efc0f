import KeyRules.Condition.Operator

/-!
# KeyRules — conditions

A condition asks which keys a candidate has. It is a tree: a leaf asks for one key, an inner node
joins the conditions below it by an operator.

* `Condition` — the trees, with their operator, operands, size, depth and keys.
* `Condition.induct` — induction over a condition through the members of its operand lists.
-/

namespace KeyRules

/-- A tree of demands on the keys of a candidate. -/
inductive Condition where
  /-- The candidate must have this key. -/
  | key (name : String)
  /-- The operands, joined by an operator. -/
  | group (op : Operator) (operands : List Condition)
  deriving Repr, Inhabited

namespace Condition

/-- Induction through membership: a group is reached from all its operands. -/
@[elab_as_elim]
theorem induct {motive : Condition → Prop} (key : ∀ name, motive (key name))
    (group : ∀ op operands, (∀ c ∈ operands, motive c) → motive (group op operands))
    (c : Condition) : motive c :=
  Condition.rec (motive_1 := motive) (motive_2 := fun cs => ∀ c ∈ cs, motive c)
    key group (by simp) (by simp +contextual) c

/-! ## Views -/

/-- Whether the condition asks for a single key. -/
def isKey : Condition → Bool
  | key _ => true
  | group _ _ => false

/-- The operator of a group. -/
def operator? : Condition → Option Operator
  | key _ => none
  | group op _ => some op

/-- The operands of a group; a key has none. -/
def operands : Condition → List Condition
  | key _ => []
  | group _ operands => operands

/-! ## Measures -/

mutual

/-- The number of nodes. -/
def size : Condition → Nat
  | key _ => 1
  | group _ operands => 1 + sizeAll operands

/-- The number of nodes of several conditions together. -/
def sizeAll : List Condition → Nat
  | [] => 0
  | c :: cs => c.size + sizeAll cs

end

mutual

/-- The number of groups on the longest way down; an empty group counts as one. -/
def depth : Condition → Nat
  | key _ => 0
  | group _ operands => 1 + depthAll operands

/-- The largest depth among several conditions. -/
def depthAll : List Condition → Nat
  | [] => 0
  | c :: cs => max c.depth (depthAll cs)

end

mutual

/-- The keys asked for, from left to right. -/
def keys : Condition → List String
  | key name => [name]
  | group _ operands => keysAll operands

/-- The keys asked for by several conditions, from left to right. -/
def keysAll : List Condition → List String
  | [] => []
  | c :: cs => c.keys ++ keysAll cs

end

/-- Several conditions ask for a key if one of them does. -/
theorem mem_keysAll {name : String} {cs : List Condition} :
    name ∈ keysAll cs ↔ ∃ c ∈ cs, name ∈ c.keys := by
  induction cs with
  | nil => simp [keysAll]
  | cons c cs ih => simp [keysAll, ih]

/-! ## Equality -/

mutual

/-- Equality of conditions is decided node by node. -/
def decEq : (a b : Condition) → Decidable (a = b)
  | key m, key n =>
    if h : m = n then isTrue (by rw [h]) else isFalse fun e => h (by injection e)
  | key _, group _ _ => isFalse (by simp)
  | group _ _, key _ => isFalse (by simp)
  | group op as, group oq bs =>
    if h : op = oq then
      match decEqAll as bs with
      | isTrue hs => isTrue (by rw [h, hs])
      | isFalse hs => isFalse fun e => hs (by injection e)
    else isFalse fun e => h (by injection e)

/-- Equality of lists of conditions. -/
def decEqAll : (as bs : List Condition) → Decidable (as = bs)
  | [], [] => isTrue rfl
  | [], _ :: _ => isFalse (by simp)
  | _ :: _, [] => isFalse (by simp)
  | a :: as, b :: bs =>
    match decEq a b, decEqAll as bs with
    | isTrue h, isTrue hs => isTrue (by rw [h, hs])
    | isFalse h, _ => isFalse fun e => h (by injection e)
    | _, isFalse hs => isFalse fun e => hs (by injection e)

end

instance : DecidableEq Condition := decEq

end Condition

end KeyRules
