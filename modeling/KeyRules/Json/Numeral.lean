import KeyRules.Json.Basic
import KeyRules.Json.Fault

/-!
# KeyRules — numbers of JSON texts

A number is a sign, a whole part, a fraction and an exponent, of which only the whole part must be
there. The digits of the whole part and of the fraction are collected in a significand of 64 bits.
A whole digit that no longer fits counts as a zero, a fraction digit that no longer fits is
dropped, and so is every one of that part after it.

A number is an integer when it has neither fraction nor exponent, lost no digit and fits a machine
integer; negative zero does not. Any other number is the significand, as a double, scaled by its
power of ten.

* `Numeral` — a number that is being read, with its step for one character.
* `Numeral.number` — the number read.
-/

namespace KeyRules.Json

/-- Where a reader stands inside a number. -/
inductive Numeral.Place where
  /-- Before the first digit. -/
  | start
  /-- After a leading zero. -/
  | zero
  /-- After a digit of the whole part that is no leading zero. -/
  | whole
  /-- After the point. -/
  | point
  /-- After a digit of the fraction. -/
  | fraction
  /-- After the exponent mark. -/
  | mark
  /-- After the sign of the exponent. -/
  | markSign
  /-- After a digit of the exponent. -/
  | exponent
  deriving DecidableEq, Repr

/-- A number that is being read. -/
structure Numeral where
  /-- Whether a minus sign stands in front. -/
  negative : Bool
  /-- Where the reader stands. -/
  place : Numeral.Place := .start
  /-- The digits collected, as one number. -/
  significand : Nat := 0
  /-- Whether a digit of the present part did not fit the significand. -/
  full : Bool := false
  /-- The power of ten that the digits of both parts bring with them. -/
  scale : Int := 0
  /-- Whether the exponent is negative. -/
  descending : Bool := false
  /-- The exponent without its sign. -/
  power : Nat := 0
  deriving DecidableEq, Repr

namespace Numeral

variable {ρ : Type}

/-- The value of a decimal digit. -/
def digit? (c : Char) : Option Nat :=
  if '0' ≤ c ∧ c ≤ '9' then some (c.toNat - '0'.toNat) else none

/-- Whether a character is the exponent mark. -/
def isMark (c : Char) : Bool :=
  c = 'e' || c = 'E'

/-- Whether a character ends the number, which may end here, instead of going on in it. A digit
after a leading zero does neither. -/
def endsAt (n : Numeral) (c : Char) : Bool :=
  match n.place with
  | .zero | .whole => (digit? c).isNone && c ≠ '.' && !isMark c
  | .fraction => (digit? c).isNone && !isMark c
  | .exponent => (digit? c).isNone
  | _ => false

/-- Whether the number may end here. -/
def isComplete (n : Numeral) : Bool :=
  match n.place with
  | .zero | .whole | .fraction | .exponent => true
  | _ => false

/-- The significand with one more digit, if it still fits. -/
def extend? (n : Numeral) (d : Nat) : Option Nat :=
  if !n.full && n.significand * 10 + d < Nat.pow 2 64 then some (n.significand * 10 + d) else none

/-- Reads a digit of the whole part. -/
def pushWhole (n : Numeral) (d : Nat) : Numeral :=
  match n.extend? d with
  | some significand => { n with place := .whole, significand }
  | none => { n with place := .whole, full := true, scale := n.scale + 1 }

/-- Reads a digit of the fraction. -/
def pushFraction (n : Numeral) (d : Nat) : Numeral :=
  match n.extend? d with
  | some significand => { n with place := .fraction, significand, scale := n.scale - 1 }
  | none => { n with place := .fraction, full := true }

/-- Reads a digit of the exponent. -/
def pushExponent (n : Numeral) (d : Nat) : Numeral :=
  { n with place := .exponent, power := n.power * 10 + d }

/-- Reads a character that goes on in the number. -/
def step (n : Numeral) (c : Char) : Except (Fault ρ) Numeral :=
  match n.place, digit? c with
  | .start, some 0 => .ok { n with place := .zero }
  | .start, some d | .whole, some d => .ok (n.pushWhole d)
  | .point, some d | .fraction, some d => .ok (n.pushFraction d)
  | .mark, some d | .markSign, some d | .exponent, some d => .ok (n.pushExponent d)
  | .zero, none | .whole, none =>
    if c = '.' then .ok { n with place := .point, full := false }
    else if isMark c then .ok { n with place := .mark }
    else .error .invalidNumber
  | .fraction, none => if isMark c then .ok { n with place := .mark } else .error .invalidNumber
  | .mark, none =>
    if c = '+' then .ok { n with place := .markSign }
    else if c = '-' then .ok { n with place := .markSign, descending := true }
    else .error .invalidNumber
  | _, _ => .error .invalidNumber

/-! ## The number read -/

/-- A power of ten as a double. -/
def powerOfTen (k : Nat) : Float :=
  Float.ofScientific 1 false k

/-- Divides by a power of ten, step by step where no double can hold it, until nothing is left. -/
def divide (f : Float) (k : Nat) : Float :=
  if k ≤ 308 then f / powerOfTen k
  else if f == 0 then f
  else divide (f / powerOfTen 308) (k - 308)
termination_by k

/-- Multiplies by a power of ten; the result is infinite when the power exceeds every double. -/
def multiply (f : Float) (k : Nat) : Float :=
  if k ≤ 308 then f * powerOfTen k
  else if f == 0 then f
  else 1 / 0

/-- The double nearest to the significand, scaled. -/
def magnitude (n : Numeral) : Float :=
  let exponent := if n.descending then n.scale - n.power else n.scale + n.power
  let f := n.significand.toUInt64.toFloat
  match exponent with
  | .ofNat k => multiply f k
  | .negSucc k => divide f (k + 1)

/-- The value of a number without fraction and exponent, if it is a machine integer. -/
def integer? (n : Numeral) : Option Int :=
  if n.full then none
  else match n.place, n.negative with
    | .zero, false | .whole, false => some n.significand
    | .whole, true => if n.significand ≤ Nat.pow 2 63 then some (-n.significand) else none
    | _, _ => none

/-- The number read. It is infinite when it exceeds every double. -/
def number (n : Numeral) : Number :=
  match n.integer? with
  | some value => .integer value
  | none => .float (if n.negative then -n.magnitude else n.magnitude)

end Numeral

/-- Whether a number is finite. -/
def Number.isFinite : Number → Bool
  | integer _ => true
  | float value => value.isFinite

end KeyRules.Json
