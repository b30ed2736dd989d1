/-!
# Decimal numbers

Whole numbers as text: read with a bound, and durations in their shortest unit.

## Main definitions

* `Decimal.read?` — decimal digits, optionally after a plus sign, of a number below a bound.
* `Decimal.readSigned` — the same with a sign, and with the reason why a text is no such number.
* `Decimal.ofMillis` — a duration given in milliseconds, in its largest fitting unit without
  trailing zeros: `0ns`, `30ms`, `1.5s`.
-/

namespace IncrementalBuild.Decimal

/-- The value of a decimal digit. -/
def digit? (c : Char) : Option Nat :=
  if '0' ≤ c ∧ c ≤ '9' then some (c.toNat - '0'.toNat) else none

/-- Reads digits into `acc`, refusing any other character. -/
def digits? : Nat → List Char → Option Nat
  | acc, [] => some acc
  | acc, c :: cs => do
    let d ← digit? c
    digits? (acc * 10 + d) cs

/-- Reads a number below `bound`: one digit or more, after at most one plus sign. -/
def read? (bound : Nat) (cs : List Char) : Option Nat := do
  let ds := match cs with
    | '+' :: rest => rest
    | _ => cs
  if ds.isEmpty then none
  let n ← digits? 0 ds
  if n < bound then some n else none

/-- The bound of process numbers: they are written in 32 bits. -/
def word : Nat := 4294967296

/-! ### Signed numbers -/

/-- Why a text is not a number below a bound. -/
inductive Fault
  | empty
  | invalidDigit
  /-- It does not fit into 64 bits. -/
  | tooLarge
  /-- It does not fit into 64 bits, and is negative. -/
  | tooSmall
  | outOfRange (n : Int) (bound : Nat)
  deriving DecidableEq, Repr

/-- The text of a fault. -/
def Fault.message : Fault → String
  | .empty => "cannot parse integer from empty string"
  | .invalidDigit => "invalid digit found in string"
  | .tooLarge => "number too large to fit in target type"
  | .tooSmall => "number too small to fit in target type"
  | .outOfRange n bound => s!"{n} is not in 0..={bound - 1}"

/-- Reads decimal digits into `n`, up to a limit. The first character that is no digit and the
first digit that leads beyond the limit end the reading. -/
def digitsWithin (limit : Nat) (beyond : Fault) : Nat → List Char → Except Fault Nat
  | n, [] => .ok n
  | n, c :: cs =>
    match digit? c with
    | none => .error .invalidDigit
    | some d =>
      if limit < n * 10 + d then .error beyond else digitsWithin limit beyond (n * 10 + d) cs

/-- Reads a number of 64 bits, perhaps with a sign. -/
def signed (cs : List Char) : Except Fault Int :=
  match cs with
  | [] => .error .empty
  | ['+'] | ['-'] => .error .invalidDigit
  | '-' :: ds => (digitsWithin 9223372036854775808 .tooSmall 0 ds).map fun n => -(n : Int)
  | '+' :: ds => (digitsWithin 9223372036854775807 .tooLarge 0 ds).map Int.ofNat
  | ds => (digitsWithin 9223372036854775807 .tooLarge 0 ds).map Int.ofNat

/-- Reads a number below `bound`, perhaps with a sign. -/
def readSigned (bound : Nat) (cs : List Char) : Except Fault Nat :=
  match signed cs with
  | .error fault => .error fault
  | .ok n => if 0 ≤ n ∧ n < bound then .ok n.toNat else .error (.outOfRange n bound)

/-! ### Durations -/

/-- Three digits with leading zeros. -/
def threeDigits (n : Nat) : List Char :=
  let ds := (toString n).toList
  List.replicate (3 - ds.length) '0' ++ ds

/-- A fraction's digits without trailing zeros. -/
def dropZeros (ds : List Char) : List Char := (ds.reverse.dropWhile (· == '0')).reverse

/-- A duration of whole milliseconds in its largest fitting unit. -/
def ofMillis (ms : Nat) : String :=
  if ms = 0 then "0ns"
  else if ms < 1000 then s!"{ms}ms"
  else
    let fraction := dropZeros (threeDigits (ms % 1000))
    if fraction.isEmpty then s!"{ms / 1000}s"
    else s!"{ms / 1000}." ++ String.ofList fraction ++ "s"

end IncrementalBuild.Decimal
