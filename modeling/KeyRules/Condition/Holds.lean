import KeyRules.Candidate
import KeyRules.Condition.Basic

/-!
# KeyRules — when a condition holds

* `Condition.holds` — the value of a condition on a candidate. An empty "and" holds always, an
  empty "or" never.
* `Condition.holds_group` — a group asks all or any of its operands.
-/

namespace KeyRules.Condition

variable {γ : Type} [HasKeys γ]

mutual

/-- Whether a condition holds for a candidate. -/
def holds (candidate : γ) : Condition → Bool
  | key name => hasKey candidate name
  | group .and operands => allHold candidate operands
  | group .or operands => anyHolds candidate operands

/-- Whether all of several conditions hold. -/
def allHold (candidate : γ) : List Condition → Bool
  | [] => true
  | c :: cs => c.holds candidate && allHold candidate cs

/-- Whether one of several conditions holds. -/
def anyHolds (candidate : γ) : List Condition → Bool
  | [] => false
  | c :: cs => c.holds candidate || anyHolds candidate cs

end

/-- The recursion on operands joined by "and" is the library's test of all members. -/
theorem allHold_eq_all (candidate : γ) (cs : List Condition) :
    allHold candidate cs = cs.all (holds candidate) := by
  induction cs with
  | nil => rfl
  | cons c cs ih => simp [allHold, ih]

theorem anyHolds_eq_any (candidate : γ) (cs : List Condition) :
    anyHolds candidate cs = cs.any (holds candidate) := by
  induction cs with
  | nil => rfl
  | cons c cs ih => simp [anyHolds, ih]

/-- A group holds if all of its operands do, or some operand does, as its operator says; an empty
one as for any empty list. -/
theorem holds_group (candidate : γ) (op : Operator) (operands : List Condition) :
    (group op operands).holds candidate =
      match op with
      | .and => operands.all (holds candidate)
      | .or => operands.any (holds candidate) := by
  cases op <;> simp [holds, allHold_eq_all, anyHolds_eq_any]

end KeyRules.Condition
