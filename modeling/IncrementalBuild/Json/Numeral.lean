import IncrementalBuild.Text.Bytes
/-!
# Numbers as they are written

A number in JSON text is digits, perhaps a point and more digits, perhaps an exponent. Those that
stand where a record is read have to be numbers that a double is near to, in the double's own
arithmetic: a number is cut to a significand of one machine word and a power of ten, both are
rounded to doubles, and their product is taken.

## Main definitions

* `Json.Numeral` — a number as it is written.
* `Json.Scaled`, `Json.Numeral.scaled` — what is kept of it: a significand and a power of ten.
* `Json.nearestDouble` — the double nearest to a natural number.
* `Json.Numeral.overflows` — whether a number is beyond the doubles.

## What is cut

Digits before the point that no longer fit into the significand are dropped and raise the power
of ten. Digits after the point are dropped from the first one on that does not fit. A number whose
digits are all zero is zero whatever its exponent is.
-/

namespace IncrementalBuild.Json

/-- A number as it is written. -/
structure Numeral where
  negative : Bool
  /-- The digits before the point. -/
  whole : List Char
  /-- The digits after the point, if there is one. -/
  fraction : Option (List Char)
  /-- The exponent, if there is one: whether it is negative, and its digits. -/
  exponent : Option (Bool × List Char)
  deriving DecidableEq, Repr

/-- The value of a digit. -/
def digitValue (d : Char) : Nat := d.toNat - '0'.toNat

/-- The value of digits. -/
def digitsValue (ds : List Char) : Nat := ds.foldl (fun n d => n * 10 + digitValue d) 0

/-- The least number that a machine word does not hold. -/
def wordLimit : Nat := Nat.pow 2 64

/-- The number that digits continue as long as it stays below the limit of a word, and how many
digits are left. -/
def absorb : Nat → List Char → Nat × Nat
  | n, [] => (n, 0)
  | n, d :: ds =>
    let longer := n * 10 + digitValue d
    if longer < wordLimit then absorb longer ds else (n, ds.length + 1)

/-- A significand and the power of ten that it is multiplied by. -/
structure Scaled where
  significand : Nat
  exponent : Int
  deriving DecidableEq, Repr

/-- The largest exponent that is told from larger ones. -/
def maxExponent : Nat := 2147483647

/-- The number of bits in the significand of a double. -/
def doubleBits : Nat := 53

/-- The double nearest to a natural number, of two that are equally near the even one. -/
def nearestDouble (n : Nat) : Nat :=
  let unit := Nat.pow 2 (n.log2 + 1 - doubleBits)
  let quotient := n / unit
  let twice := 2 * (n % unit)
  let up := unit < twice || (twice == unit && quotient % 2 == 1)
  (if up then quotient + 1 else quotient) * unit

/-- The least product that rounds to no double. -/
def tooLarge : Nat := Nat.pow 2 1024 - Nat.pow 2 970

/-- The largest power of ten that is a double. -/
def maxPower : Nat := 308

namespace Scaled

/-- Whether the product of significand and power is beyond the doubles. -/
def overflows (s : Scaled) : Bool :=
  s.significand != 0 && decide (0 ≤ s.exponent) &&
    (decide (maxPower < s.exponent.toNat)
      || decide (tooLarge
        ≤ nearestDouble s.significand * nearestDouble (Nat.pow 10 s.exponent.toNat)))

end Scaled

namespace Numeral

/-- What is kept of a number's digits; its exponent is not counted yet. -/
def mantissa (n : Numeral) : Scaled :=
  let (whole, dropped) := absorb 0 n.whole
  let fraction := n.fraction.getD []
  let (significand, left) := absorb whole fraction
  ⟨significand, (dropped : Int) - ((fraction.length - left : Nat) : Int)⟩

/-- What is kept of a number. -/
def scaled (n : Numeral) : Scaled :=
  let m := n.mantissa
  match n.exponent with
  | none => m
  | some (true, e) => { m with exponent := m.exponent - (digitsValue e : Int) }
  | some (false, e) => { m with exponent := m.exponent + (digitsValue e : Int) }

/-- Whether a number is beyond the doubles. A positive exponent that is too large to be told from
larger ones counts as beyond them whatever the point's place. -/
def overflows (n : Numeral) : Bool :=
  match n.exponent with
  | some (negative, e) =>
    if maxExponent < digitsValue e then !negative && n.mantissa.significand != 0
    else n.scaled.overflows
  | none => n.scaled.overflows

/-- The natural number that is written, if neither sign nor point nor exponent stand there. -/
def nat? (n : Numeral) : Option Nat :=
  if n.negative || n.fraction.isSome || n.exponent.isSome then none
  else some (digitsValue n.whole)

end Numeral
end IncrementalBuild.Json
