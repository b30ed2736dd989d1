import IncrementalBuild.Host.Shell.State
/-!
# Conditions

The conditions that `test` and `[` decide: comparisons of texts and numbers, and questions about
files, joined by `-a`, `-o`, `!` and brackets.

## Main definitions

* `Shell.Condition.Lexeme`, `Shell.Condition.lexeme` — what an argument means in its place: an
  operator where operands follow, and an operand otherwise.
* `Shell.Condition.Fault` — why a condition cannot be decided.
* `Shell.Condition.holds` — whether a condition holds.
-/

namespace IncrementalBuild.Shell.Condition

/-- What an argument of a condition means. -/
inductive Lexeme
  | finished
  | operand
  | unary (operator : String)
  | binary (operator : String)
  | not
  | and
  | or
  | opening
  | closing
  deriving DecidableEq, Repr

/-- Why a condition cannot be decided. -/
inductive Fault
  /-- Something stands in a place where it has no meaning. -/
  | misplaced (subject : Text) (reason : String)
  | notANumber (text : Text)
  deriving DecidableEq, Repr

/-- The text of a fault. -/
def Fault.message : Fault → Text
  | .misplaced subject reason =>
    if subject.isEmpty then lit reason else subject ++ lit ": " ++ lit reason
  | .notANumber text => lit "Illegal number: " ++ text

/-- The operators with one operand. -/
def unaryOperators : List String :=
  ["-r", "-w", "-x", "-e", "-f", "-d", "-c", "-b", "-p", "-u", "-g", "-k", "-s", "-t", "-z", "-n",
   "-h", "-O", "-G", "-L", "-S"]

/-- The operators with two operands. -/
def binaryOperators : List String :=
  ["=", "!=", "<", ">", "-eq", "-ne", "-ge", "-gt", "-le", "-lt", "-nt", "-ot", "-ef"]

/-- The operator an argument spells. -/
def operator? (cs : Text) : Option Lexeme :=
  let s := String.ofList cs
  if unaryOperators.contains s then some (.unary s)
  else if binaryOperators.contains s then some (.binary s)
  else
    match s with
    | "!" => some .not
    | "-a" => some .and
    | "-o" => some .or
    | "(" => some .opening
    | ")" => some .closing
    | _ => none

/-- Whether an argument spells an operator with two operands. -/
def isBinary (cs : Text) : Bool :=
  match operator? cs with
  | some (.binary _) => true
  | _ => false

/-- What the first of some arguments means. -/
def lexeme : List Text → Lexeme
  | [] => .finished
  | a :: rest =>
    match operator? a with
    | none => .operand
    | some (.unary o) =>
      match rest with
      | [] => .operand
      | [_] => .unary o
      | b :: _ => if isBinary b then .operand else .unary o
    | some .opening => if rest.isEmpty then .operand else .opening
    | some other => other

/-- The location of a path that swallows what is written. -/
def nullPlace : Location := ["dev", "null"]

/-- The answer to a question about one operand. -/
def ask (files : Files) (operator : String) (a : Text) : Bool :=
  let p := Text.toPath a
  let entry := files.stat p
  let isNull := match files.locate p with
    | .ok place => place == nullPlace
    | .error _ => false
  match operator with
  | "-n" => !a.isEmpty
  | "-z" => a.isEmpty
  | "-e" | "-r" | "-w" | "-O" | "-G" => entry.toBool
  | "-f" => match entry with | .ok (.file _ _ _) => !isNull | _ => false
  | "-c" => isNull
  | "-d" => entry.toOption == some .directory
  | "-x" => match entry with
    | .ok (.file _ _ executable) => executable
    | .ok .directory => true
    | _ => false
  | "-s" => match entry with
    | .ok (.file contents _ _) => !contents.isEmpty
    | .ok .directory => true
    | _ => false
  | "-S" => match entry with | .ok (.socket _) => true | _ => false
  | _ => false

/-- The number that an operand has to be. -/
def number (a : Text) : Except Fault Int :=
  match integer? false a with
  | some n => .ok n
  | none => .error (.notANumber a)

/-- The answer to a question about two operands. -/
def compare (files : Files) (operator : String) (a b : Text) : Except Fault Bool := do
  let numbers (f : Int → Int → Bool) : Except Fault Bool := return f (← number a) (← number b)
  let times (f : Timestamp → Timestamp → Bool) : Bool :=
    match files.modified (Text.toPath a), files.modified (Text.toPath b) with
    | .ok s, .ok t => f s t
    | _, _ => false
  match operator with
  | "=" => return a == b
  | "!=" => return a != b
  | "<" => return Text.before a b
  | ">" => return Text.before b a
  | "-eq" => numbers (· == ·)
  | "-ne" => numbers (· != ·)
  | "-ge" => numbers fun x y => decide (y ≤ x)
  | "-gt" => numbers fun x y => decide (y < x)
  | "-le" => numbers fun x y => decide (x ≤ y)
  | "-lt" => numbers fun x y => decide (x < y)
  | "-nt" => return times fun s t => decide (t.nanos < s.nanos)
  | "-ot" => return times fun s t => decide (s.nanos < t.nanos)
  | _ =>
    match files.locate (Text.toPath a), files.locate (Text.toPath b) with
    | .ok x, .ok y => return x == y
    | _, _ => return false

mutual

/-- Conditions joined by `-o`. What is returned with the answer are the arguments from the last one
that was used on. -/
def disjunction (files : Files) : Nat → Lexeme → List Text → Except Fault (Bool × List Text)
  | 0, _, args => .ok (false, args)
  | fuel + 1, first, args => do
    let (a, args) ← conjunction files fuel first args
    if lexeme args.tail == .or then
      let args := args.drop 2
      let (b, args) ← disjunction files fuel (lexeme args) args
      return (a || b, args)
    else return (a, args)

/-- Conditions joined by `-a`. -/
def conjunction (files : Files) : Nat → Lexeme → List Text → Except Fault (Bool × List Text)
  | 0, _, args => .ok (false, args)
  | fuel + 1, first, args => do
    let (a, args) ← negation files fuel first args
    if lexeme args.tail == .and then
      let args := args.drop 2
      let (b, args) ← conjunction files fuel (lexeme args) args
      return (a && b, args)
    else return (a, args)

/-- A condition, perhaps negated. -/
def negation (files : Files) : Nat → Lexeme → List Text → Except Fault (Bool × List Text)
  | 0, _, args => .ok (false, args)
  | fuel + 1, first, args => do
    if first == .not then
      let next := lexeme args.tail
      let (a, args) ← negation files fuel next (if next == .finished then args else args.tail)
      return (!a, args)
    else primary files fuel first args

/-- A condition without connectives outside brackets. -/
def primary (files : Files) : Nat → Lexeme → List Text → Except Fault (Bool × List Text)
  | 0, _, args => .ok (false, args)
  | fuel + 1, first, args => do
    match first with
    | .finished => return (false, args)
    | .opening =>
      let inside := args.tail
      if lexeme inside == .closing then return (false, inside)
      let (a, rest) ← disjunction files fuel (lexeme inside) inside
      let rest := rest.tail
      if lexeme rest == .closing then return (a, rest)
      else throw (.misplaced [] "closing paren expected")
    | .unary operator =>
      match args.tail with
      | [] => throw (.misplaced (lit operator) "argument expected")
      | a :: rest => return (ask files operator a, a :: rest)
    | _ =>
      match args with
      | [] => return (false, [])
      | a :: rest =>
        match lexeme rest with
        | .binary operator =>
          match rest.tail with
          | [] => throw (.misplaced (lit operator) "argument expected")
          | b :: more => return (← compare files operator a b, b :: more)
        | _ => return (!a.isEmpty, args)

end

/-- Whether a condition of any number of arguments holds. -/
def whole (files : Files) (first : Lexeme) (args : List Text) : Except Fault Bool := do
  let (a, rest) ← disjunction files (4 * args.length + 8) first args
  match rest with
  | b :: _ :: _ => throw (.misplaced b "unexpected operator")
  | _ => return a

/-- Whether a condition of three arguments holds. An operator in the middle decides; brackets
around and a negation in front are taken away. `negated` says whether a negation was taken away
before, and one more changes nothing. -/
def three (files : Files) (negated : Bool) (a o b : Text) : Except Fault Bool :=
  let result (negated : Bool) (x : Except Fault Bool) : Except Fault Bool := x.map (· != negated)
  if isBinary o then result negated (whole files .operand [a, o, b])
  else if a == ['('] && b == [')'] then result negated (whole files (lexeme [o]) [o])
  else if a == ['!'] then result true (whole files (lexeme [o, b]) [o, b])
  else result negated (whole files (lexeme [a, o, b]) [a, o, b])

/-- Whether a condition holds. -/
def holds (files : Files) : List Text → Except Fault Bool
  | [] => .ok false
  | [a, o, b] => three files false a o b
  | [a, b, c, d] =>
    if a == ['('] && d == [')'] then whole files (lexeme [b, c]) [b, c]
    else if a == ['!'] then three files true b c d
    else whole files (lexeme [a, b, c, d]) [a, b, c, d]
  | args => whole files (lexeme args) args

/-- Decides a condition: success if it holds. In brackets the last argument has to be the closing
one. -/
def run (inBrackets : Bool) (args : List Text) : Run Nat := do
  if inBrackets && args.getLast? != some [']'] then Run.fail (lit "missing ]")
  let args := if inBrackets then args.dropLast else args
  match holds (← get).files args with
  | .ok b => return if b then 0 else 1
  | .error e => Run.fail e.message

end IncrementalBuild.Shell.Condition
