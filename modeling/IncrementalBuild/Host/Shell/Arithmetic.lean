import IncrementalBuild.Host.Shell.Text
/-!
# Arithmetic of the shell

The expressions that scripts compute with: whole numbers of 64 bits, variables, and C's operators
without a comma and without increments.

## Main definitions

* `Shell.Arithmetic.Lexeme`, `Shell.Arithmetic.lexemes` — numbers, names and operators.
* `Shell.Arithmetic.Fault` — why an expression has no value.
* `Shell.Arithmetic.value` — the value of an expression and the variables it sets.

## Evaluation

An expression is evaluated while it is read. The parts that C would not evaluate are read all the
same, but their variables and divisions are left alone.
-/

namespace IncrementalBuild.Shell.Arithmetic

/-- A part of an expression. -/
inductive Lexeme
  | number (n : Int)
  | variable (name : Text)
  | operator (text : String)
  /-- A character that belongs to no expression. -/
  | stray
  deriving DecidableEq, Repr

/-- Why an expression has no value. -/
inductive Fault
  /-- The expression is malformed or not defined, for a reason. -/
  | expression (reason : String)
  /-- The value of a variable is no number. -/
  | notANumber (value : Text)
  deriving DecidableEq, Repr

/-- The operators, longer ones before those they start with. -/
def operators : List String :=
  ["<<=", ">>=", "<<", ">>", "<=", ">=", "==", "!=", "&&", "||", "*=", "/=", "%=", "+=", "-=",
   "&=", "^=", "|=", "<", ">", "=", "!", "&", "|", "*", "/", "%", "+", "-", "^", "~", "(", ")", "?",
   ":"]

/-- Splits an expression. -/
def lexemesWithin : Nat → Text → List Lexeme
  | 0, _ => []
  | _ + 1, [] => []
  | fuel + 1, c :: rest =>
    if c == ' ' || c == '\t' || c == '\n' then lexemesWithin fuel rest
    else if c.isDigit then
      let p := integerPrefix true (c :: rest)
      .number p.value :: lexemesWithin fuel p.rest
    else if startsName c then
      let name := (c :: rest).takeWhile continuesName
      .variable name :: lexemesWithin fuel ((c :: rest).drop name.length)
    else
      match operators.find? fun o => o.toList.isPrefixOf (c :: rest) with
      | some o => .operator o :: lexemesWithin fuel ((c :: rest).drop o.length)
      | none => .stray :: lexemesWithin fuel rest

/-- The parts of an expression. -/
def lexemes (cs : Text) : List Lexeme := lexemesWithin (cs.length + 1) cs

/-- How tightly a binary operator binds; small numbers bind tightly. -/
def precedence? : String → Option Nat
  | "*" | "/" | "%" => some 0
  | "+" | "-" => some 1
  | "<<" | ">>" => some 2
  | "<" | "<=" | ">" | ">=" => some 3
  | "==" | "!=" => some 4
  | "&" => some 5
  | "^" => some 6
  | "|" => some 7
  | _ => none

/-- The precedence beyond all binary operators. -/
def loosest : Nat := 8

/-- The operator that an assignment applies first. -/
def assignment? : String → Option (Option String)
  | "=" => some none
  | "*=" => some (some "*")
  | "/=" => some (some "/")
  | "%=" => some (some "%")
  | "+=" => some (some "+")
  | "-=" => some (some "-")
  | "<<=" => some (some "<<")
  | ">>=" => some (some ">>")
  | "&=" => some (some "&")
  | "^=" => some (some "^")
  | "|=" => some (some "|")
  | _ => none

/-- A truth value as a number. -/
def ofBool (b : Bool) : Int := if b then 1 else 0

/-- An operation on the bits of two numbers of 64 bits. -/
def onBits (f : UInt64 → UInt64 → UInt64) (a b : Int) : Int :=
  (f (UInt64.ofInt a) (UInt64.ofInt b)).toInt64.toInt

/-- The value of a binary operator. -/
def apply (operator : String) (a b : Int) : Except Fault Int :=
  match operator with
  | "*" => .ok (wrapInteger (a * b))
  | "/" => if b = 0 then .error (.expression "division by zero") else .ok (wrapInteger (a.tdiv b))
  | "%" => if b = 0 then .error (.expression "division by zero") else .ok (a.tmod b)
  | "+" => .ok (wrapInteger (a + b))
  | "-" => .ok (wrapInteger (a - b))
  | "<<" => .ok (onBits (fun x y => x <<< (y % 64)) a b)
  | ">>" => .ok (a >>> (UInt64.ofInt b % 64).toNat)
  | "<" => .ok (ofBool (decide (a < b)))
  | "<=" => .ok (ofBool (decide (a ≤ b)))
  | ">" => .ok (ofBool (decide (b < a)))
  | ">=" => .ok (ofBool (decide (b ≤ a)))
  | "==" => .ok (ofBool (a == b))
  | "!=" => .ok (ofBool (a != b))
  | "&" => .ok (onBits (· &&& ·) a b)
  | "^" => .ok (onBits (· ^^^ ·) a b)
  | "|" => .ok (onBits (· ||| ·) a b)
  | _ => .ok 0

/-- What is left of an expression, and the variables it has set so far, the latest first. -/
structure Evaluation where
  rest : List Lexeme
  assigned : List (Text × Int) := []

/-- A step of evaluating an expression. -/
abbrev Step := StateT Evaluation (Except Fault)

/-- Breaks off. -/
def refuse {α : Type} (reason : String) : Step α := throw (.expression reason)

/-- The next part, which stays. -/
def peek : Step (Option Lexeme) := return (← get).rest.head?

/-- Drops a part. -/
def advance : Step Unit := modify fun e => { e with rest := e.rest.tail }

/-- Whether the next part is an operator; it is dropped if so. -/
def accept (operator : String) : Step Bool := do
  if (← peek) == some (.operator operator) then do
    advance
    return true
  else return false

/-- The binary operator that comes next, with its precedence. -/
def binary? : Step (Option (String × Nat)) := do
  match ← peek with
  | some (.operator o) => return (precedence? o).map fun p => (o, p)
  | _ => return none

/-- The number that a variable holds. -/
def variableValue (lookup : Text → Option Text) (name : Text) : Step Int := do
  match (← get).assigned.lookup name with
  | some n => return n
  | none =>
    let value := (lookup name).getD []
    match integer? true value with
    | some n => return n
    | none => throw (.notANumber value)

mutual

/-- A number, a variable or an expression in brackets, perhaps after signs. -/
def primary (lookup : Text → Option Text) : Nat → (idle : Bool) → Step Int
  | 0, _ => refuse "expecting primary"
  | fuel + 1, idle => do
    match ← peek with
    | some (.number n) => do
      advance
      return n
    | some (.variable name) => do
      advance
      if idle then return 0 else variableValue lookup name
    | some (.operator "(") => do
      advance
      let n ← assignment lookup fuel idle
      if ← accept ")" then return n else refuse "expecting ')'"
    | some (.operator "+") => do
      advance
      primary lookup fuel idle
    | some (.operator "-") => do
      advance
      return wrapInteger (-(← primary lookup fuel idle))
    | some (.operator "!") => do
      advance
      return ofBool ((← primary lookup fuel idle) == 0)
    | some (.operator "~") => do
      advance
      return -(← primary lookup fuel idle) - 1
    | _ => refuse "expecting primary"

/-- Goes on behind a first operand with operators that bind more tightly than `limit`. -/
def operands (lookup : Text → Option Text) : Nat → (idle : Bool) → (first : Int) → (limit : Nat) →
    Step Int
  | 0, _, first, _ => return first
  | fuel + 1, idle, first, limit => do
    match ← binary? with
    | none => return first
    | some (operator, precedence) =>
      if limit ≤ precedence then return first
      else do
        advance
        let second ← primary lookup fuel idle
        let second ← match ← binary? with
          | some (_, next) =>
            if next < precedence then operands lookup fuel idle second precedence else pure second
          | none => pure second
        let value ← if idle then pure second else
          match apply operator first second with
          | .ok n => pure n
          | .error e => throw e
        operands lookup fuel idle value limit

/-- Operands joined by `&&`. -/
def conjunction (lookup : Text → Option Text) : Nat → (idle : Bool) → Step Int
  | 0, _ => refuse "expecting primary"
  | fuel + 1, idle => do
    let first ← primary lookup fuel idle
    let first ← operands lookup fuel idle first loosest
    if ← accept "&&" then
      let second ← conjunction lookup fuel (idle || first == 0)
      return ofBool (first != 0 && second != 0)
    else return first

/-- Operands joined by `||`. -/
def disjunction (lookup : Text → Option Text) : Nat → (idle : Bool) → Step Int
  | 0, _ => refuse "expecting primary"
  | fuel + 1, idle => do
    let first ← conjunction lookup fuel idle
    if ← accept "||" then
      let second ← disjunction lookup fuel (idle || first != 0)
      return ofBool (first != 0 || second != 0)
    else return first

/-- A choice, or an expression without one. -/
def choice (lookup : Text → Option Text) : Nat → (idle : Bool) → Step Int
  | 0, _ => refuse "expecting primary"
  | fuel + 1, idle => do
    let condition ← disjunction lookup fuel idle
    if ← accept "?" then
      let first ← assignment lookup fuel (idle || condition == 0)
      if !(← accept ":") then refuse "expecting ':'"
      let second ← choice lookup fuel (idle || condition != 0)
      return if condition != 0 then first else second
    else return condition

/-- An assignment, or an expression without one. -/
def assignment (lookup : Text → Option Text) : Nat → (idle : Bool) → Step Int
  | 0, _ => refuse "expecting primary"
  | fuel + 1, idle => do
    match (← get).rest with
    | .variable name :: .operator o :: rest =>
      match assignment? o with
      | none => choice lookup fuel idle
      | some before => do
        modify fun e => { e with rest }
        let value ← assignment lookup fuel idle
        if idle then return value
        let value ← match before with
          | none => pure value
          | some operator =>
            match apply operator (← variableValue lookup name) value with
            | .ok n => pure n
            | .error e => throw e
        modify fun e => { e with assigned := (name, value) :: e.assigned }
        return value
    | _ => choice lookup fuel idle

end

/-- The value of an expression, and the variables it sets, in order. -/
def value (lookup : Text → Option Text) (cs : Text) : Except Fault (Int × List (Text × Int)) :=
  let parts := lexemes cs
  match (assignment lookup (8 * parts.length + 8) false).run { rest := parts } with
  | .error e => .error e
  | .ok (n, e) =>
    if e.rest.isEmpty then .ok (n, e.assigned.reverse)
    else .error (.expression "expecting EOF")

end IncrementalBuild.Shell.Arithmetic
