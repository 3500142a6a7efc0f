/-!
# KeyRules — shortest decimals

A double stands for all reals that round to it. Among the decimals in that interval the shortest
is the one with the fewest digits, and of several with equally many digits the one nearest to the
double itself. It is found in whole numbers: a double is `m * 2 ^ q`, the interval reaches half a
unit to both sides, and on the grid of the multiples of a power of ten only the two neighbours of
the double need to be tried.

* `Binary` — a double as a whole number times a power of two.
* `shortest` — the digits and the power of ten of its shortest decimal.
-/

namespace KeyRules.Decimal

/-- The positive number `m * 2 ^ q`. -/
structure Binary where
  /-- The significand. -/
  m : Nat
  /-- The power of two. -/
  q : Int
  deriving DecidableEq, Repr

/-- The number `value * 10 ^ exponent`. -/
structure Digits where
  /-- The digits, as one number. -/
  value : Nat
  /-- The power of ten. -/
  exponent : Int
  deriving DecidableEq, Repr

namespace Binary

/-- The smallest significand of a double that is not subnormal. -/
def leastNormal : Nat :=
  Nat.pow 2 52

/-- The number of a double, sign aside; it must be finite. -/
def ofFloat (f : Float) : Binary :=
  let bits := f.toBits.toNat
  let biased : Nat := bits / leastNormal % Nat.pow 2 11
  let fraction := bits % leastNormal
  if biased = 0 then ⟨fraction, -1074⟩ else ⟨fraction + leastNormal, (biased : Int) - 1075⟩

/-- Whether the next smaller double is only half as far away as the next larger one. -/
def isLowest (b : Binary) : Bool :=
  b.m = leastNormal && b.q > -1074

end Binary

/-- The interval of a double over the grid of the multiples of a power of ten. All numbers are
scaled alike, so that they are whole. -/
structure Window where
  /-- The lower end of the interval. -/
  low : Nat
  /-- The double. -/
  value : Nat
  /-- The upper end of the interval. -/
  high : Nat
  /-- The distance of two grid points. -/
  unit : Nat
  /-- Whether the ends belong to the interval. -/
  closed : Bool
  deriving DecidableEq, Repr

namespace Window

/-- The interval of a double on the grid of the multiples of `10 ^ e`. -/
def of (b : Binary) (e : Int) : Window :=
  let scale := Nat.pow 2 (b.q - 2).toNat * Nat.pow 10 (-e).toNat
  { low := (4 * b.m - if b.isLowest then 1 else 2) * scale
    value := 4 * b.m * scale
    high := (4 * b.m + 2) * scale
    unit := Nat.pow 2 (2 - b.q).toNat * Nat.pow 10 e.toNat
    closed := b.m % 2 = 0 }

/-- Whether the interval holds a multiple of the unit. -/
def holds (w : Window) (d : Nat) : Bool :=
  if w.closed then w.low ≤ d * w.unit && d * w.unit ≤ w.high
  else w.low < d * w.unit && d * w.unit < w.high

/-- The multiple of the unit that lies in the interval, nearest to the double; of two that are
equally near the even one. -/
def nearest? (w : Window) : Option Nat :=
  let below := w.value / w.unit
  let gap := w.value % w.unit
  match w.holds below, w.holds (below + 1) with
  | false, false => none
  | true, false => some below
  | false, true => some (below + 1)
  | true, true =>
    if 2 * gap < w.unit || 2 * gap = w.unit && below % 2 = 0 then some below
    else some (below + 1)

end Window

/-- Tries the grids of `10 ^ e` and of the powers below it. -/
def search (b : Binary) : Nat → Int → Digits
  | 0, e => ⟨0, e⟩
  | grids + 1, e =>
    match (Window.of b e).nearest? with
    | some value => ⟨value, e⟩
    | none => search b grids (e - 1)

/-- The shortest decimal of a positive double: its grid is the coarsest one that has a point in
the interval, and lies between those of `10 ^ 309` and `10 ^ -324`. -/
def shortest (b : Binary) : Digits :=
  search b 634 309

end KeyRules.Decimal
