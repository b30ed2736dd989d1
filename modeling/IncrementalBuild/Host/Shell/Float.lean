import IncrementalBuild.Host.Shell.Text
/-!
# Decimal fractions

Numbers with a fraction as `printf` reads and writes them: a text is read as the nearest double,
and a double is written with a given number of digits. All of it is exact arithmetic on fractions.

## Main definitions

* `Shell.Fraction` — a fraction that is not negative.
* `Shell.Fraction.nearest` — the double nearest to a fraction.
* `Shell.Fraction.fixed`, `Shell.Fraction.scientific` — its digits with a number of places.
* `Shell.Real`, `Shell.Real.read` — what a text says, and how much of it was understood.
-/

namespace IncrementalBuild.Shell

/-- A fraction that is not negative; the denominator is not zero. -/
structure Fraction where
  numerator : Nat
  denominator : Nat

namespace Fraction

/-- A quotient rounded to the nearest natural number, of two that are equally near the even one. -/
def roundDiv (n d : Nat) : Nat :=
  let q := n / d
  let twice := 2 * (n % d)
  if d < twice || (twice == d && q % 2 == 1) then q + 1 else q

/-- A fraction times a power of two. -/
def scale (f : Fraction) (e : Int) : Fraction :=
  match e with
  | .ofNat n => { f with numerator := f.numerator * Nat.pow 2 n }
  | .negSucc n => { f with denominator := f.denominator * Nat.pow 2 (n + 1) }

/-- The exponent of the unit that the nearest double is a multiple of. -/
def unitExponent (f : Fraction) : Int :=
  -- The quotient lies between the powers of two around this difference.
  let guess : Int := (f.numerator.log2 : Int) - f.denominator.log2
  let below := (f.scale (-guess)).numerator < (f.scale (-guess)).denominator
  max ((if below then guess - 1 else guess) - 52) (-1074)

/-- The double nearest to a fraction; none if it is beyond the doubles. -/
def nearest (f : Fraction) : Option Fraction :=
  if f.numerator = 0 then some f
  else
    let unit := f.unitExponent
    let g := f.scale (-unit)
    let r : Fraction := scale ⟨roundDiv g.numerator g.denominator, 1⟩ unit
    if r.denominator * Nat.pow 2 1024 ≤ r.numerator then none else some r

/-- Digits with a point before the last `places`. -/
def point (places : Nat) (ds : Text) : Text × Text :=
  let padded := List.replicate (places + 1 - ds.length) '0' ++ ds
  (padded.take (padded.length - places), padded.drop (padded.length - places))

/-- The digits before and after the point, rounded to a number of places. -/
def fixed (f : Fraction) (places : Nat) : Text × Text :=
  point places (Text.ofNat (roundDiv (f.numerator * Nat.pow 10 places) f.denominator))

/-- Whether a fraction is at least a power of ten. -/
def reaches (f : Fraction) (e : Int) : Bool :=
  match e with
  | .ofNat n => f.denominator * Nat.pow 10 n ≤ f.numerator
  | .negSucc n => f.denominator ≤ f.numerator * Nat.pow 10 (n + 1)

/-- The largest exponent whose power of ten a fraction reaches, found from a first guess. -/
def decimalExponent (f : Fraction) : Int :=
  let size : Int := ((Text.ofNat f.numerator).length : Int) - (Text.ofNat f.denominator).length
  if f.reaches (size + 1) then size + 1
  else if f.reaches size then size
  else size - 1

/-- The digits of a fraction with `places` behind the first, and its decimal exponent. -/
def scientific (f : Fraction) (places : Nat) : Text × Int :=
  if f.numerator = 0 then (List.replicate (places + 1) '0', 0)
  else
    let e := f.decimalExponent
    let shift : Int := (places : Int) - e
    let n := match shift with
      | .ofNat s => roundDiv (f.numerator * Nat.pow 10 s) f.denominator
      | .negSucc s => roundDiv f.numerator (f.denominator * Nat.pow 10 (s + 1))
    let ds := Text.ofNat n
    -- Rounding up may have made one digit more.
    if places + 1 < ds.length then (ds.take (places + 1), e + 1) else (ds, e)

end Fraction

/-- The size of a number. -/
inductive Magnitude
  | finite (f : Fraction)
  | infinite
  | notANumber

/-- A number with a fraction. -/
structure Real where
  negative : Bool
  magnitude : Magnitude

namespace Real

/-- What was read from the front of a text. -/
structure Reading where
  value : Real
  /-- What follows the number. -/
  rest : Text
  /-- Whether there was a number at all. -/
  found : Bool
  /-- Whether it is beyond the doubles. -/
  beyond : Bool

/-- Reads an exponent after its letter: its value and what follows. -/
def exponent? (cs : Text) : Option (Int × Text) :=
  let (negative, rest) := match cs with
    | '-' :: rest => (true, rest)
    | '+' :: rest => (false, rest)
    | _ => (false, cs)
  let ds := rest.takeWhile Char.isDigit
  if ds.isEmpty then none
  else
    let n : Int := min (valueOf ds) 100000
    some (if negative then -n else n, rest.drop ds.length)

/-- Reads digits with perhaps a point in a base: the digits' value, the number of places, and what
follows. -/
def mantissa? (base : Nat) (cs : Text) : Option (Nat × Nat × Text) :=
  let isDigit (c : Char) : Bool := (digitIn? base c).isSome
  let whole := cs.takeWhile isDigit
  let rest := cs.drop whole.length
  let (places, rest) := match rest with
    | '.' :: more => (more.takeWhile isDigit, more.dropWhile isDigit)
    | _ => ([], rest)
  if whole.isEmpty && places.isEmpty then none
  else some (valueIn base (whole ++ places), places.length, rest)

/-- A fraction times a power of ten. -/
def timesTen (n : Nat) (e : Int) : Fraction :=
  match e with
  | .ofNat e => ⟨n * Nat.pow 10 e, 1⟩
  | .negSucc e => ⟨n, Nat.pow 10 (e + 1)⟩

/-- Reads a number from the front of a text. -/
def read (cs : Text) : Reading :=
  let bare := cs.dropWhile isSpaceLike
  let (negative, unsigned) := match bare with
    | '-' :: rest => (true, rest)
    | '+' :: rest => (false, rest)
    | _ => (false, bare)
  let nothing : Reading := ⟨⟨false, .finite ⟨0, 1⟩⟩, cs, false, false⟩
  let lower := unsigned.map Char.toLower
  let finish (exact : Fraction) (rest : Text) : Reading :=
    match exact.nearest with
    | some f => ⟨⟨negative, .finite f⟩, rest, true, false⟩
    | none => ⟨⟨negative, .infinite⟩, rest, true, true⟩
  if (lit "infinity").isPrefixOf lower then ⟨⟨negative, .infinite⟩, unsigned.drop 8, true, false⟩
  else if (lit "inf").isPrefixOf lower then ⟨⟨negative, .infinite⟩, unsigned.drop 3, true, false⟩
  else if (lit "nan").isPrefixOf lower then ⟨⟨negative, .notANumber⟩, unsigned.drop 3, true, false⟩
  else
    let hexadecimal := match lower with
      | '0' :: 'x' :: _ => mantissa? 16 (unsigned.drop 2)
      | _ => none
    match hexadecimal with
    | some (n, places, rest) =>
      let (e, rest) : Int × Text := match rest with
        | c :: more =>
          if c.toLower == 'p' then (exponent? more).getD (0, rest) else (0, rest)
        | [] => (0, rest)
      finish (Fraction.scale ⟨n, Nat.pow 16 places⟩ e) rest
    | none =>
      match mantissa? 10 unsigned with
      | none => nothing
      | some (n, places, rest) =>
        let (e, rest) : Int × Text := match rest with
          | c :: more =>
            if c.toLower == 'e' then (exponent? more).getD (0, rest) else (0, rest)
          | [] => (0, rest)
        if n = 0 then finish ⟨0, 1⟩ rest
        else
          let e := e - (places : Int)
          let size : Int := ((Text.ofNat n).length : Int) + e
          if 400 < size then ⟨⟨negative, .infinite⟩, rest, true, true⟩
          else if size < -400 then finish ⟨0, 1⟩ rest
          else finish (timesTen n e) rest

end Real
end IncrementalBuild.Shell
