import KeyRules.Decimal.Shortest

/-!
# KeyRules — the text of a double

A double is shown by the digits of its shortest decimal. Numbers of a moderate size are written
out, with at least one digit on both sides of the point; very large and very small ones have one
digit before the point and an exponent with its sign.

* `render` — the text.
-/

namespace KeyRules.Decimal

/-- The decimal digits of a number. -/
def digitText (n : Nat) : String :=
  String.ofList (Nat.toDigits 10 n)

/-- The powers of ten of a leading digit for which a number is written out. -/
def isModerate (leading : Int) : Bool :=
  -5 ≤ leading && leading < 16

/-- A number written out: its digits, with the point after the given place. -/
def writtenOut (digits : String) (leading : Int) : String :=
  let places := leading.toNat + 1
  if leading < 0 then "0." ++ String.ofList (List.replicate (-leading - 1).toNat '0') ++ digits
  else if digits.length ≤ places then
    digits ++ String.ofList (List.replicate (places - digits.length) '0') ++ ".0"
  else
    String.ofList (digits.toList.take places) ++ "." ++ String.ofList (digits.toList.drop places)

/-- A number with an exponent: a digit, the others after a point, and the exponent. -/
def withExponent (digits : String) (leading : Int) : String :=
  let head := digits.toList.take 1
  let tail := digits.toList.drop 1
  let point := if tail.isEmpty then [] else ['.']
  String.ofList (head ++ point ++ tail) ++ (if leading < 0 then "e-" else "e+") ++
    digitText leading.natAbs

/-- The text of a positive decimal. -/
def Digits.text (d : Digits) : String :=
  let digits := digitText d.value
  let leading := d.exponent + digits.length - 1
  if isModerate leading then writtenOut digits leading else withExponent digits leading

/-- The text of a finite double. -/
def render (f : Float) : String :=
  let b := Binary.ofFloat f
  let sign := if f.toBits.toNat < Nat.pow 2 63 then "" else "-"
  sign ++ if b.m = 0 then "0.0" else (shortest b).text

end KeyRules.Decimal
