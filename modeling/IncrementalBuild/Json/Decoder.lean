import IncrementalBuild.Json.Numeral
import IncrementalBuild.Json.Value
/-!
# Reading JSON

Records are read from JSON text by decoders that know the type they expect. A decoder takes the
text that is left and returns a value with what follows it. It stops at the first fault, and
tells two kinds apart: text that is not JSON, and JSON that does not fit the type.

## Main definitions

* `Json.Fault`, `Json.Decoder` — the two kinds of fault, and decoders.
* `Json.text`, `Json.bool`, `Json.natBelow`, `Json.optional`, `Json.list`, `Json.choice` — decoders
  of single values.
* `Json.Field`, `Json.record` — decoders of records. A record is an object, in which unknown
  members are skipped and no known member may be repeated, or a list of its fields in order. A
  field that is not needed keeps the value the blank record has.
* `Json.decode` — the value of a whole text.

## Strictness

Skipped values have to be JSON too, but strings in them are not taken apart: `\u` escapes of
half a character are let through, which no string that is read may contain.
-/

namespace IncrementalBuild.Json

/-- Why a text could not be read as a value. -/
inductive Fault
  /-- The text is not JSON. -/
  | malformed
  /-- It is JSON, but not of the expected shape. -/
  | mismatched
  deriving DecidableEq, Repr

/-- Reads a value from the front of a text, and returns what follows it. -/
abbrev Decoder (α : Type) := List Char → Except Fault (α × List Char)

/-- Reads with `d` and applies `f` to the value. -/
def Decoder.map {α β : Type} (f : α → β) (d : Decoder α) : Decoder β := fun cs =>
  match d cs with
  | .ok (a, rest) => .ok (f a, rest)
  | .error e => .error e

/-! ### Blanks and words -/

/-- Whether a character may stand between two tokens. -/
def isSpace (c : Char) : Bool := c == ' ' || c == '\n' || c == '\t' || c == '\r'

/-- A text without the space at its front. -/
def skipSpace (cs : List Char) : List Char := cs.dropWhile isSpace

/-- What follows `expected` at the front of a text. -/
def dropWord? : List Char → List Char → Option (List Char)
  | [], rest => some rest
  | _ :: _, [] => none
  | e :: expected, c :: cs => if e = c then dropWord? expected cs else none

/-- Reads the rest of a word that stands for `value`. -/
def literal {α : Type} (expected : String) (value : α) : Decoder α := fun cs =>
  match dropWord? (word expected) cs with
  | some rest => .ok (value, rest)
  | none => .error .malformed

/-! ### Strings -/

/-- The value of four hexadecimal digits. -/
def quad? (a b c d : Char) : Option Nat := do
  let a ← Bytes.hexValue? a
  let b ← Bytes.hexValue? b
  let c ← Bytes.hexValue? c
  let d ← Bytes.hexValue? d
  return ((a * 16 + b) * 16 + c) * 16 + d

/-- The character that a one-letter escape stands for. -/
def unescape? : Char → Option Char
  | '"' => some '"'
  | '\\' => some '\\'
  | '/' => some '/'
  | 'b' => some '\x08'
  | 'f' => some '\x0c'
  | 'n' => some '\n'
  | 'r' => some '\r'
  | 't' => some '\t'
  | _ => none

/-- Whether a code is the first half of a character beyond the basic plane. -/
def isHighHalf (n : Nat) : Bool := 0xD800 ≤ n && n < 0xDC00

/-- Whether a code is the second half of a character beyond the basic plane. -/
def isLowHalf (n : Nat) : Bool := 0xDC00 ≤ n && n < 0xE000

/-- The character of two halves. -/
def joinHalves (high low : Nat) : Char :=
  Char.ofNat (0x10000 + (high - 0xD800) * 0x400 + (low - 0xDC00))

/-- Reads the rest of a string after its opening quote. -/
def stringRest : Decoder (List Char)
  | [] => .error .malformed
  | '"' :: rest => .ok ([], rest)
  | '\\' :: 'u' :: a :: b :: c :: d :: '\\' :: 'u' :: e :: f :: g :: h :: rest =>
    match quad? a b c d with
    | none => .error .malformed
    | some n =>
      if isLowHalf n then .error .malformed
      else if isHighHalf n then
        match quad? e f g h with
        | none => .error .malformed
        | some m =>
          if isLowHalf m then (stringRest rest).map fun r => (joinHalves n m :: r.1, r.2)
          else .error .malformed
      else
        (stringRest ('\\' :: 'u' :: e :: f :: g :: h :: rest)).map fun r =>
          (Char.ofNat n :: r.1, r.2)
  | '\\' :: 'u' :: a :: b :: c :: d :: rest =>
    match quad? a b c d with
    | none => .error .malformed
    | some n =>
      if isHighHalf n || isLowHalf n then .error .malformed
      else (stringRest rest).map fun r => (Char.ofNat n :: r.1, r.2)
  | '\\' :: c :: rest =>
    match unescape? c with
    | none => .error .malformed
    | some x => (stringRest rest).map fun r => (x :: r.1, r.2)
  | c :: rest =>
    if c = '\\' ∨ c.toNat < 0x20 then .error .malformed
    else (stringRest rest).map fun r => (c :: r.1, r.2)

/-- Skips the rest of a string after its opening quote. -/
def skipString : List Char → Except Fault (List Char)
  | [] => .error .malformed
  | '"' :: rest => .ok rest
  | '\\' :: 'u' :: a :: b :: c :: d :: rest =>
    if (quad? a b c d).isSome then skipString rest else .error .malformed
  | '\\' :: c :: rest => if (unescape? c).isSome then skipString rest else .error .malformed
  | c :: rest => if c = '\\' ∨ c.toNat < 0x20 then .error .malformed else skipString rest

/-! ### Numbers -/

/-- Splits digits off the front of a text. -/
def digits (cs : List Char) : List Char × List Char := cs.span Char.isDigit

/-- Reads a point and the digits after it, if there is a point. -/
def fractionPart : List Char → Except Fault (Option (List Char) × List Char)
  | '.' :: rest =>
    match digits rest with
    | ([], _) => .error .malformed
    | (ds, rest) => .ok (some ds, rest)
  | cs => .ok (none, cs)

/-- Reads an exponent, if there is one. -/
def exponentPart : List Char → Except Fault (Option (Bool × List Char) × List Char)
  | c :: rest =>
    if c = 'e' ∨ c = 'E' then
      let (negative, rest) := match rest with
        | '-' :: rest => (true, rest)
        | '+' :: rest => (false, rest)
        | _ => (false, rest)
      match digits rest with
      | ([], _) => .error .malformed
      | (ds, rest) => .ok (some (negative, ds), rest)
    else .ok (none, c :: rest)
  | [] => .ok (none, [])

/-- Reads a number. A zero at the front stands alone. -/
def numeral : Decoder Numeral := fun cs =>
  let (negative, cs) := match cs with
    | '-' :: rest => (true, rest)
    | _ => (false, cs)
  match digits cs with
  | ([], _) => .error .malformed
  | (whole, rest) =>
    if whole.head? = some '0' ∧ whole.length ≠ 1 then .error .malformed
    else
      match fractionPart rest with
      | .error e => .error e
      | .ok (fraction, rest) =>
        match exponentPart rest with
        | .error e => .error e
        | .ok (exponent, rest) => .ok (⟨negative, whole, fraction, exponent⟩, rest)

/-- Reads a number that a double is near to. -/
def number : Decoder Numeral := fun cs =>
  match numeral cs with
  | .ok (n, rest) => if n.overflows then .error .malformed else .ok (n, rest)
  | .error e => .error e

/-- Whether a number starts with a character. -/
def startsNumber (c : Char) : Bool := c == '-' || c.isDigit

/-! ### Skipping -/

mutual

/-- Skips one value. `fuel` bounds the number of values and members that begin. -/
def skipValue : Nat → List Char → Except Fault (List Char)
  | 0, _ => .error .malformed
  | fuel + 1, cs =>
    match skipSpace cs with
    | 'n' :: rest => (literal "ull" () rest).map Prod.snd
    | 't' :: rest => (literal "rue" () rest).map Prod.snd
    | 'f' :: rest => (literal "alse" () rest).map Prod.snd
    | '"' :: rest => skipString rest
    | '[' :: rest =>
      match skipSpace rest with
      | ']' :: rest => .ok rest
      | rest => skipItems fuel rest
    | '\x7b' :: rest =>
      match skipSpace rest with
      | '\x7d' :: rest => .ok rest
      | rest => skipMembers fuel rest
    | c :: rest => if startsNumber c then (numeral (c :: rest)).map Prod.snd else .error .malformed
    | [] => .error .malformed

/-- Skips the items of a list and its end. -/
def skipItems : Nat → List Char → Except Fault (List Char)
  | 0, _ => .error .malformed
  | fuel + 1, cs =>
    match skipValue fuel cs with
    | .error e => .error e
    | .ok rest =>
      match skipSpace rest with
      | ',' :: rest => skipItems fuel rest
      | ']' :: rest => .ok rest
      | _ => .error .malformed

/-- Skips the members of an object and its end. -/
def skipMembers : Nat → List Char → Except Fault (List Char)
  | 0, _ => .error .malformed
  | fuel + 1, cs =>
    match skipSpace cs with
    | '"' :: rest =>
      match skipString rest with
      | .error e => .error e
      | .ok rest =>
        match skipSpace rest with
        | ':' :: rest =>
          match skipValue fuel rest with
          | .error e => .error e
          | .ok rest =>
            match skipSpace rest with
            | ',' :: rest => skipMembers fuel rest
            | '\x7d' :: rest => .ok rest
            | _ => .error .malformed
        | _ => .error .malformed
    | _ => .error .malformed

end

/-- Skips one value of any shape. Twice the length of the text is more than the number of values
and members that can begin in it. -/
def skip : Decoder Unit := fun cs => (skipValue (2 * cs.length + 2) cs).map fun rest => ((), rest)

/-! ### Values -/

/-- The fault of a text that holds another value than the expected one. A list or an object is
recognised by its first character, all else has to be there in full. -/
def otherValue {α : Type} : List Char → Except Fault α
  | '[' :: _ | '\x7b' :: _ => .error .mismatched
  | 'n' :: rest => (literal "ull" () rest).bind fun _ => .error .mismatched
  | 't' :: rest => (literal "rue" () rest).bind fun _ => .error .mismatched
  | 'f' :: rest => (literal "alse" () rest).bind fun _ => .error .mismatched
  | '"' :: rest => (stringRest rest).bind fun _ => .error .mismatched
  | c :: rest =>
    if startsNumber c then (number (c :: rest)).bind fun _ => .error .mismatched
    else .error .malformed
  | [] => .error .malformed

/-- Reads a string. -/
def text : Decoder String := fun cs =>
  match skipSpace cs with
  | '"' :: rest => (stringRest rest).map fun r => (String.ofList r.1, r.2)
  | rest => otherValue rest

/-- Reads `true` or `false`. -/
def bool : Decoder Bool := fun cs =>
  match skipSpace cs with
  | 't' :: rest => literal "rue" true rest
  | 'f' :: rest => literal "alse" false rest
  | rest => otherValue rest

/-- Reads a natural number below a bound, written with digits alone. -/
def natBelow (bound : Nat) : Decoder Nat := fun cs =>
  match skipSpace cs with
  | [] => .error .malformed
  | c :: rest =>
    if startsNumber c then
      match number (c :: rest) with
      | .error e => .error e
      | .ok (n, rest) =>
        match n.nat? with
        | some value => if value < bound then .ok (value, rest) else .error .mismatched
        | none => .error .mismatched
    else otherValue (c :: rest)

/-- Reads `null` or a value. -/
def optional {α : Type} (d : Decoder α) : Decoder (Option α) := fun cs =>
  match skipSpace cs with
  | 'n' :: rest => literal "ull" none rest
  | _ => (d.map some) cs

/-- Reads the items of a list and its end; at least one item follows. -/
def items {α : Type} (d : Decoder α) : Nat → Decoder (List α)
  | 0, _ => .error .malformed
  | fuel + 1, cs =>
    match d cs with
    | .error e => .error e
    | .ok (a, rest) =>
      match skipSpace rest with
      | ',' :: rest => (items d fuel rest).map fun r => (a :: r.1, r.2)
      | ']' :: rest => .ok ([a], rest)
      | _ => .error .malformed

/-- Reads a list of values. -/
def list {α : Type} (d : Decoder α) : Decoder (List α) := fun cs =>
  match skipSpace cs with
  | '[' :: rest =>
    match skipSpace rest with
    | ']' :: rest => .ok ([], rest)
    | rest => items d (rest.length + 1) rest
  | rest => otherValue rest

/-- Reads the name of one of several values: as a string, or as an object whose one member has
that name and holds `null`. -/
def choice {α : Type} (values : List (String × α)) : Decoder α := fun cs =>
  let named : Decoder α := fun cs =>
    match text cs with
    | .error e => .error e
    | .ok (name, rest) =>
      match values.lookup name with
      | some a => .ok (a, rest)
      | none => .error .mismatched
  let member : Decoder α := fun cs =>
    match skipSpace cs with
    | '"' :: rest => named ('"' :: rest)
    | _ => .error .malformed
  match skipSpace cs with
  | '"' :: rest => named ('"' :: rest)
  | '\x7b' :: rest =>
    match member rest with
    | .error e => .error e
    | .ok (a, rest) =>
      match skipSpace rest with
      | ':' :: rest =>
        match skipSpace rest with
        | 'n' :: rest =>
          match literal "ull" () rest with
          | .error e => .error e
          | .ok ((), rest) =>
            match skipSpace rest with
            | '\x7d' :: rest => .ok (a, rest)
            | _ => .error .malformed
        | rest => otherValue rest
      | _ => .error .malformed
  | _ => .error .malformed

/-! ### Records -/

/-- A field of a record of type `ρ`: its name, how its value changes the record, and whether it
may not be left out. -/
structure Field (ρ : Type) where
  name : String
  read : Decoder (ρ → ρ)
  needed : Bool

/-- A field that may be left out. -/
def Field.of {ρ α : Type} (name : String) (d : Decoder α) (set : α → ρ → ρ) : Field ρ :=
  ⟨name, d.map set, false⟩

/-- A field that has to be there. -/
def Field.must {ρ α : Type} (name : String) (d : Decoder α) (set : α → ρ → ρ) : Field ρ :=
  ⟨name, d.map set, true⟩

/-- Reads the members of an object and its end; at least one member follows. `seen` holds the
names of the fields read so far. -/
def members {ρ : Type} (fields : List (Field ρ)) : Nat → List String → ρ → Decoder ρ
  | 0, _, _, _ => .error .malformed
  | fuel + 1, seen, r, cs =>
    let value (name : String) (rest : List Char) : Except Fault (ρ × List Char) :=
      match skipSpace rest with
      | ':' :: rest =>
        match fields.find? (·.name == name) with
        | none => (skip rest).map fun s => (r, s.2)
        | some field => (field.read rest).map fun s => (s.1 r, s.2)
      | _ => .error .malformed
    match skipSpace cs with
    | '"' :: rest =>
      match stringRest rest with
      | .error e => .error e
      | .ok (name, rest) =>
        let name := String.ofList name
        if seen.contains name then .error .mismatched
        else
          match value name rest with
          | .error e => .error e
          | .ok (r, rest) =>
            let seen := if fields.any (·.name == name) then name :: seen else seen
            match skipSpace rest with
            | ',' :: rest => members fields fuel seen r rest
            | '\x7d' :: rest =>
              if fields.all fun f => !f.needed || seen.contains f.name then .ok (r, rest)
              else .error .mismatched
            | _ => .error .malformed
    | _ => .error .malformed

/-- Reads the fields that are left from a list, which ends after them; the flag says whether an
item was read before. -/
def inOrder {ρ : Type} : List (Field ρ) → Bool → ρ → Decoder ρ
  | [], _, r, cs =>
    match skipSpace cs with
    | ']' :: rest => .ok (r, rest)
    | _ => .error .malformed
  | field :: fields, later, r, cs =>
    let value (rest : List Char) : Except Fault (ρ × List Char) :=
      match field.read rest with
      | .error e => .error e
      | .ok (set, rest) => inOrder fields true (set r) rest
    match skipSpace cs with
    | [] => .error .malformed
    | ']' :: rest =>
      if (field :: fields).any (·.needed) then .error .mismatched else .ok (r, rest)
    | ',' :: rest =>
      if later then
        match skipSpace rest with
        | ']' :: _ => .error .malformed
        | rest => value rest
      else value (',' :: rest)
    | c :: rest => if later then .error .malformed else value (c :: rest)

/-- Reads a record, starting from the record `blank`. -/
def record {ρ : Type} (fields : List (Field ρ)) (blank : ρ) : Decoder ρ := fun cs =>
  match skipSpace cs with
  | '\x7b' :: rest =>
    match skipSpace rest with
    | '\x7d' :: rest =>
      if fields.any (·.needed) then .error .mismatched else .ok (blank, rest)
    | rest => members fields (rest.length + 1) [] blank rest
  | '[' :: rest => inOrder fields false blank rest
  | rest => otherValue rest

/-- The value of a whole text. -/
def decode {α : Type} (d : Decoder α) (cs : List Char) : Except Fault α :=
  match d cs with
  | .error e => .error e
  | .ok (a, rest) => if skipSpace rest = [] then .ok a else .error .malformed

end IncrementalBuild.Json
