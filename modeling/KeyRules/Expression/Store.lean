import KeyRules.Condition.Basic
import KeyRules.Error

/-!
# KeyRules — conditions under way

While an expression is compiled, the groups that are done wait in a store until the group around
them is done as well. A condition is put in once, gets the next free index, and is taken out once;
taking it again is an error.

* `Store.push` — puts a condition in.
* `Store.take` — takes a condition out.
-/

namespace KeyRules.Expression

/-- Finished groups by index; a group that was taken leaves its place empty. -/
structure Store where
  /-- The places, in the order in which they were filled. -/
  places : Array (Option Condition) := #[]
  deriving Repr

namespace Store

/-- How many groups were put in so far. -/
def size (store : Store) : Nat :=
  store.places.size

/-- Puts a condition in and answers its index. -/
def push (store : Store) (c : Condition) : Nat × Store :=
  (store.size, ⟨store.places.push (some c)⟩)

/-- Takes the condition at an index out, if it is still there. -/
def take (index : Nat) (store : Store) : Except Error (Condition × Store) :=
  match store.places[index]? with
  | some (some c) => .ok (c, ⟨store.places.setIfInBounds index none⟩)
  | _ => .error (.missingGroup index)

end Store

end KeyRules.Expression
