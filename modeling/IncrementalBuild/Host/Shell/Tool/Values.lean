import IncrementalBuild.Host.Shell.Condition
import IncrementalBuild.Host.Shell.Printing
import IncrementalBuild.Host.Shell.Regex
import IncrementalBuild.Host.Shell.Tool.Options
/-!
# Tools for values

The tools that print texts, parts of paths and numbers, and those that only have a status.

## Main definitions

* `Shell.Tool.echo`, `Shell.Tool.printf`, `Shell.Tool.yes` — print texts.
* `Shell.Tool.test` — evaluates a condition.
* `Shell.Tool.basename`, `Shell.Tool.dirname`, `Shell.Tool.pwd`, `Shell.Tool.which` — print paths.
* `Shell.Tool.seq` — prints numbers in steps.
* `Shell.Tool.expr` — evaluates an expression.
* `Shell.Tool.id`, `Shell.Tool.whoami`, `Shell.Tool.uname` — print who and where one is.

Each returns its status.
-/

namespace IncrementalBuild.Shell.Tool

/-! ### Texts -/

/-- The letters of an argument that consists of options of `echo`. -/
def echoOptions? (a : Text) : Option Text :=
  match a with
  | '-' :: letters =>
    if !letters.isEmpty && letters.all ['n', 'e', 'E'].contains then some letters else none
  | _ => none

/-- Prints arguments with blanks between them. -/
def echo (args : List Text) : Run Nat := do
  let front := args.takeWhile fun a => (echoOptions? a).isSome
  let letters := front.flatMap fun a => (echoOptions? a).getD []
  let text := Text.joinWith [' '] (args.drop front.length)
  let resolves := (letters.reverse.find? (· != 'n')) == some 'e'
  let (out, cut) := if resolves then Escape.all true text else (text, false)
  Run.print (if letters.contains 'n' || cut then out else out ++ ['\n'])
  return 0

/-- Prints arguments by a format. -/
def printf (args : List Text) : Run Nat := do
  let args := match args with
    | ['-', '-'] :: rest => rest
    | _ => args
  match args with
  | [] => misused 1 (lit "missing operand")
  | format :: args => do
    let ((), p) ← (Printf.again format (args.length + 1)).run { byTool := true, args }
    Run.print p.out
    if !p.asked && !p.cut then
      if let a :: _ := p.args then
        complain (lit "warning: ignoring excess arguments, starting with " ++ inQuotes a)
    return p.status

/-- How many lines are printed where there is no end to them. -/
def endlessLines : Nat := 8192

/-- Prints a line again and again. -/
def yes (args : List Text) : Run Nat := do
  let line := if args.isEmpty then ['y'] else Text.joinWith [' '] args
  Run.print (List.replicate endlessLines (line ++ ['\n'])).flatten
  return 0

/-! ### Conditions -/

/-- The message for a condition that is none. -/
def conditionFault : Condition.Fault → Text
  | .notANumber text => lit "invalid integer " ++ inQuotes text
  | .misplaced subject reason =>
    if reason == "unexpected operator" then lit "extra argument " ++ inQuotes subject
    else lit "missing argument after " ++ inQuotes subject

/-- Evaluates a condition. -/
def test (inBrackets : Bool) (args : List Text) : Run Nat := do
  if inBrackets && args.getLast? != some [']'] then stop 2 (lit "missing ']'")
  let args := if inBrackets then args.dropLast else args
  let args := match args with
    | [a, ['=', '='], b] => [a, ['='], b]
    | _ => args
  if let [_, operator, _] := args then
    if operator == ['<'] || operator == ['>'] then
      stop 2 (inQuotes operator ++ lit ": binary operator expected")
  match Condition.holds (← get).files args with
  | .ok b => return if b then 0 else 1
  | .error e => stop 2 (conditionFault e)

/-! ### Paths -/

/-- A path without the separators at its end. -/
def withoutSeparators (p : Text) : Text := (p.reverse.dropWhile (· == '/')).reverse

/-- The last name of a path, without an ending that it may have. -/
def baseName (ending p : Text) : Text :=
  let bare := withoutSeparators p
  if bare.isEmpty then p.take 1
  else
    let last := (Text.splitAt '/' bare).getLast?.getD []
    if ending.length < last.length && ending.reverse.isPrefixOf last.reverse then
      last.take (last.length - ending.length)
    else last

/-- A path without its last name. -/
def directoryName (p : Text) : Text :=
  let bare := withoutSeparators p
  if bare.isEmpty then (if p.isEmpty then ['.'] else ['/'])
  else if !bare.contains '/' then ['.']
  else
    let front := withoutSeparators (bare.reverse.dropWhile (· != '/')).reverse
    if front.isEmpty then ['/'] else front

/-- Prints the last names of paths. -/
def basename (args : List Text) : Run Nat := do
  let (given, names) ← optionsBefore 1
    [⟨'a', "multiple", .nothing⟩, ⟨'s', "suffix", .argument⟩, ⟨'z', "zero", .nothing⟩] args
  let ending := if given.has 'z' then ['\x00'] else ['\n']
  let several := given.has 'a' || given.has 's'
  match names with
  | [] => misused 1 (lit "missing operand")
  | [name] => Run.print (baseName ((given.value? 's').getD []) name ++ ending)
  | name :: second :: rest =>
    if several then
      for n in names do Run.print (baseName ((given.value? 's').getD []) n ++ ending)
    else
      match rest with
      | [] => Run.print (baseName second name ++ ending)
      | extra :: _ => misused 1 (lit "extra operand " ++ inQuotes extra)
  return 0

/-- Prints paths without their last names. -/
def dirname (args : List Text) : Run Nat := do
  let (given, names) ← options 1 [⟨'z', "zero", .nothing⟩] args
  if names.isEmpty then misused 1 (lit "missing operand")
  for n in names do
    Run.print (directoryName n ++ (if given.has 'z' then ['\x00'] else ['\n']))
  return 0

/-- Prints the work directory. -/
def pwd (args : List Text) : Run Nat := do
  let (_, extra) ← options 1 [⟨'L', "logical", .nothing⟩, ⟨'P', "physical", .nothing⟩] args
  if !extra.isEmpty then complain (lit "ignoring non-option arguments")
  Run.print (Text.ofString (← get).files.currentDirectory.text ++ ['\n'])
  return 0

/-- Prints where programs are found. -/
def which (args : List Text) : Run Nat := do
  let (given, names) ← optionsBefore 2 [⟨'a', "", .nothing⟩, ⟨'s', "", .nothing⟩] args
  let st ← get
  let mut status := if names.isEmpty then 1 else 0
  for name in names do
    let candidates := if name.contains '/' then [name]
      else st.searchPath.map fun dir => Text.ofString (dir.join (Text.toPath name)).text
    let found := candidates.filter fun p =>
      match st.files.stat (Text.toPath p) with
      | .ok (.file _ _ mark) => mark
      | _ => false
    if found.isEmpty then status := 1
    else if !given.has 's' then
      for p in (if given.has 'a' then found else found.take 1) do Run.print (p ++ ['\n'])
  return status

/-! ### Numbers in steps -/

/-- A decimal number: a whole number of units of the last of so many places. -/
structure Decimal where
  units : Int
  places : Nat
  /-- How many characters stand before the point where it was written. -/
  width : Nat := 0

namespace Decimal

/-- The number that a text says in decimal digits, perhaps with a point and an exponent. -/
def read? (cs : Text) : Option Decimal :=
  let bare := cs.dropWhile isSpaceLike
  let (negative, unsigned) := match bare with
    | '-' :: rest => (true, rest)
    | '+' :: rest => (false, rest)
    | _ => (false, bare)
  match Real.mantissa? 10 unsigned with
  | none => none
  | some (n, places, rest) =>
    let exponent : Option Int := match rest with
      | [] => some 0
      | e :: more =>
        if e == 'e' || e == 'E' then
          match Real.exponent? more with
          | some (e, []) => some e
          | _ => none
        else none
    exponent.bind fun e =>
      if 400 < e.natAbs then none
      else
        let left : Int := (places : Int) - e
        let n := if left < 0 then n * Nat.pow 10 left.natAbs else n
        let width := (cs.takeWhile fun c => c != '.' && c != 'e' && c != 'E').length
        some ⟨if negative then -(n : Int) else n, left.toNat, width⟩

/-- The same number in units of more places. -/
def unitsAt (places : Nat) (d : Decimal) : Int := d.units * (Nat.pow 10 (places - d.places) : Nat)

/-- The text of a number of units. -/
def text (places : Nat) (n : Int) : Text :=
  let (whole, part) := Fraction.point places (Text.ofNat n.natAbs)
  (if n < 0 then ['-'] else []) ++ whole ++ (if part.isEmpty then [] else '.' :: part)

/-- A number filled up with zeros. -/
def filled (width : Nat) (cs : Text) : Text :=
  match cs with
  | '-' :: rest => '-' :: List.replicate (width - cs.length) '0' ++ rest
  | _ => List.replicate (width - cs.length) '0' ++ cs

end Decimal

/-- The number that an argument has to be. -/
def decimal (cs : Text) : Run Decimal :=
  match Decimal.read? cs with
  | some d => return d
  | none => misused 1 (lit "invalid floating point argument: " ++ inQuotes cs)

/-- A format with one conversion in it: the text before, the conversion with its letter, and the
text after. -/
structure NumberFormat where
  before : Text
  conversion : Conversion
  letter : Char
  after : Text

/-- The text up to a percent sign that stands alone, and what follows it, if there is one. -/
def upToPercent : Text → Text × Option Text
  | [] => ([], none)
  | '%' :: '%' :: rest =>
    let (before, after) := upToPercent rest
    ('%' :: before, after)
  | '%' :: rest => ([], some rest)
  | c :: rest =>
    let (before, after) := upToPercent rest
    (c :: before, after)

/-- The format that an argument has to be. -/
def numberFormat (cs : Text) : Run NumberFormat := do
  match upToPercent cs with
  | (_, none) => stop 1 (lit "format " ++ inQuotes cs ++ lit " has no % directive")
  | (before, some rest) =>
    let flags := rest.takeWhile Printf.isFlag
    let rest := rest.drop flags.length
    let width := rest.takeWhile Char.isDigit
    let rest := rest.drop width.length
    let (precision, rest) : Option Nat × Text := match rest with
      | '.' :: more =>
        let ds := more.takeWhile Char.isDigit
        (some (valueOf ds), more.drop ds.length)
      | _ => (none, rest)
    match rest with
    | [] => stop 1 (lit "format " ++ inQuotes cs ++ lit " ends in %")
    | letter :: after =>
      if ['e', 'E', 'f', 'F', 'g', 'G'].contains letter then
        match upToPercent after with
        | (after, none) => return ⟨before, ⟨flags, valueOf width, precision⟩, letter, after⟩
        | (_, some _) => stop 1 (lit "format " ++ inQuotes cs ++ lit " has too many % directives")
      else
        stop 1 (lit "format " ++ inQuotes cs ++ lit " has unknown %" ++ [letter]
          ++ lit " directive")

/-- A number in a format. -/
def NumberFormat.text (f : NumberFormat) (places : Nat) (n : Int) : Text :=
  f.before ++ f.conversion.real f.letter ⟨n < 0, .finite ⟨n.natAbs, Nat.pow 10 places⟩⟩ ++ f.after

/-- The numbers from one to another in steps; `left` is how many there are at most. -/
def steps (last step : Int) : (left : Nat) → Int → List Int
  | 0, _ => []
  | left + 1, n =>
    if (0 < step && last < n) || (step < 0 && n < last) then []
    else n :: steps last step left (n + step)

/-- Whether an argument is a number and no option. -/
def isNegativeNumber (a : Text) : Bool :=
  match a with
  | '-' :: c :: _ => c.isDigit || c == '.'
  | _ => false

/-- Prints numbers in steps. -/
def seq (args : List Text) : Run Nat := do
  let front := args.takeWhile fun a => !isNegativeNumber a
  let (given, operands) ← optionsBefore 1
    [⟨'s', "separator", .argument⟩, ⟨'w', "equal-width", .nothing⟩, ⟨'f', "format", .argument⟩]
    front
  let operands := operands ++ args.drop front.length
  let (first, step, last) ← match operands with
    | [] => misused 1 (lit "missing operand")
    | [last] => pure (['1'], ['1'], last)
    | [first, last] => pure (first, ['1'], last)
    | [first, step, last] => pure (first, step, last)
    | _ :: _ :: _ :: extra :: _ => misused 1 (lit "extra operand " ++ inQuotes extra)
  let format ← (given.value? 'f').mapM numberFormat
  let a ← decimal first
  let d ← decimal step
  let z ← decimal last
  if d.units = 0 then misused 1 (lit "invalid Zero increment value: " ++ inQuotes step)
  let shown := max a.places d.places
  let places := max shown z.places
  let all := steps (z.unitsAt places) (d.unitsAt places) (endlessLines * 16) (a.unitsAt places)
  let units : Int := (Nat.pow 10 (places - shown) : Nat)
  let texts := match format with
    | some f => all.map (f.text places)
    | none =>
      let plain := all.map fun n => Decimal.text shown (n / units)
      if given.has 'w' then
        let point := if shown = 0 then 0 else shown + 1
        let width := max (if 1 < operands.length then a.width else 1) z.width + point
        let width := (plain.map List.length).foldl max width
        plain.map (Decimal.filled width)
      else plain
  if !texts.isEmpty then
    Run.print (Text.joinWith ((given.value? 's').getD ['\n']) texts ++ ['\n'])
  return 0

/-! ### Expressions -/

namespace Expression

/-- The arguments that are left, and the one before them. -/
structure Rest where
  before : Text := []
  args : List Text

/-- A step of evaluation; a failure has a message. -/
abbrev Step := StateT Rest (Except Text)

/-- The whole number that a text is. -/
def number? (cs : Text) : Option Int :=
  match cs with
  | '-' :: ds => if isNatural ds then some (-(valueOf ds : Int)) else none
  | _ => if isNatural cs then some (valueOf cs) else none

/-- Whether a value counts as false. -/
def isNull (cs : Text) : Bool := cs.isEmpty || number? cs == some 0

/-- The next argument. -/
def next : Step Text := do
  let s ← get
  match s.args with
  | [] => throw (lit "syntax error: missing argument after " ++ inQuotes s.before)
  | a :: args => do
    set { s with before := a, args }
    return a

/-- Takes the next argument if it is one of several. -/
def takeOneOf (names : List String) : Step (Option String) := do
  let s ← get
  match s.args with
  | [] => return none
  | a :: args =>
    match names.find? fun name => name.toList == a with
    | none => return none
    | some name => do
      set { s with before := a, args }
      return some name

/-- The whole number that a value has to be. -/
def number (cs : Text) : Step Int :=
  match number? cs with
  | some n => return n
  | none => throw (lit "non-integer argument")

/-- A truth value. -/
def truth (b : Bool) : Text := if b then ['1'] else ['0']

/-- Compares values, as numbers if both are. -/
def compare (operator : String) (a b : Text) : Text :=
  let order : Ordering := match number? a, number? b with
    | some m, some n => Ord.compare m n
    | _, _ => if a == b then .eq else if Text.before a b then .lt else .gt
  truth (match operator with
    | "<" => order.isLT
    | "<=" => order.isLE
    | "=" | "==" => order.isEq
    | "!=" => order.isNe
    | ">=" => order.isGE
    | _ => order.isGT)

/-- What an expression matches at the front of a text: its first group, or how long the match
is. -/
def matched (text pattern : Text) : Step Text :=
  match Regex.read { extended := false, lenient := true } pattern with
  | .error message => throw (lit message)
  | .ok (r, groups, _) =>
    match Regex.matchHere {} r [] text with
    | some found =>
      return if groups = 0 then Text.ofNat found.text.length else (found.groups.lookup 1).getD []
    | none => return if groups = 0 then ['0'] else []

/-- The part of a text from a place on, counted from one, with a number of characters. -/
def part (text place count : Text) : Text :=
  match number? place, number? count with
  | some (.ofNat (p + 1)), some (.ofNat n) => (text.drop p).take n
  | _, _ => []

/-- Joins two values by an operator of arithmetic. -/
def calculate (operator : String) (a b : Text) : Step Text := do
  let m ← number a
  let n ← number b
  if (operator == "/" || operator == "%") && n = 0 then throw (lit "division by zero")
  return Text.ofInt (match operator with
    | "+" => m + n
    | "-" => m - n
    | "*" => m * n
    | "/" => m.tdiv n
    | _ => m.tmod n)

/-- The operators of each level; those of later levels bind more tightly. -/
def operators : Nat → List String
  | 0 => ["|"]
  | 1 => ["&"]
  | 2 => ["<", "<=", "=", "==", "!=", ">=", ">"]
  | 3 => ["+", "-"]
  | 4 => ["*", "/", "%"]
  | _ => [":"]

/-- Joins two values by an operator of a level. What is not evaluated has no value of its own. -/
def join (level : Nat) (evaluated : Bool) (operator : String) (a b : Text) : Step Text :=
  match level with
  | 0 => return if !isNull a then a else if isNull b then ['0'] else b
  | 1 => return if isNull a || isNull b then ['0'] else a
  | 2 => return compare operator a b
  | 5 => if evaluated then matched a b else return a
  | _ => if evaluated then calculate operator a b else return a

mutual

/-- An expression with operators of a level and of those that bind more tightly. -/
def value : Nat → (level : Nat) → (evaluated : Bool) → Step Text
  | 0, _, _ => return []
  | fuel + 1, level, evaluated => do
    let a ← operand fuel level evaluated
    operations fuel level evaluated a

/-- An operand of a level. -/
def operand : Nat → (level : Nat) → (evaluated : Bool) → Step Text
  | 0, _, _ => return []
  | fuel + 1, level, evaluated =>
    if level < 5 then value fuel (level + 1) evaluated else simple fuel evaluated

/-- The operations of a level on a value. -/
def operations : Nat → (level : Nat) → (evaluated : Bool) → Text → Step Text
  | 0, _, _, a => return a
  | fuel + 1, level, evaluated, a => do
    match ← takeOneOf (operators level) with
    | none => return a
    | some operator => do
      -- What cannot change the value is not evaluated.
      let needed := match level with
        | 0 => isNull a
        | 1 => !isNull a
        | _ => true
      let b ← operand fuel level (evaluated && needed)
      operations fuel level evaluated (← join level evaluated operator a b)

/-- A value without operators. -/
def simple : Nat → (evaluated : Bool) → Step Text
  | 0, _ => return []
  | fuel + 1, evaluated => do
    match ← takeOneOf ["+", "length", "match", "index", "substr", "(", ")"] with
    | none => next
    | some "+" => next
    | some "length" => return Text.ofNat (← simple fuel evaluated).length
    | some "match" => do
      let a ← simple fuel evaluated
      let b ← simple fuel evaluated
      if evaluated then matched a b else return a
    | some "index" => do
      let a ← simple fuel evaluated
      let b ← simple fuel evaluated
      return Text.ofNat (((a.findIdx? b.contains).map (· + 1)).getD 0)
    | some "substr" => do
      let a ← simple fuel evaluated
      let place ← simple fuel evaluated
      let count ← simple fuel evaluated
      return part a place count
    | some "(" => do
      let a ← value fuel 0 evaluated
      let s ← get
      match s.args with
      | [] => throw (lit "syntax error: expecting ')' after " ++ inQuotes s.before)
      | b :: args =>
        if b == [')'] then do
          set { s with before := b, args }
          return a
        else throw (lit "syntax error: expecting ')' instead of " ++ inQuotes b)
    | some _ => throw (lit "syntax error: unexpected ')'")

end

/-- The value of a whole expression. -/
def evaluate (args : List Text) : Except Text Text := do
  let (a, rest) ← (value (16 * args.length + 16) 0 true).run { args }
  match rest.args with
  | [] => return a
  | b :: _ => throw (lit "syntax error: unexpected argument " ++ inQuotes b)

end Expression

/-- Prints the value of an expression. -/
def expr (args : List Text) : Run Nat := do
  let args := match args with
    | ['-', '-'] :: rest => rest
    | _ => args
  if args.isEmpty then misused 2 (lit "missing operand")
  match Expression.evaluate args with
  | .error message => stop 2 message
  | .ok a => do
    Run.print (a ++ ['\n'])
    return if Expression.isNull a then 1 else 0

/-! ### Surroundings -/

/-- Refuses operands. -/
def withoutOperands (operands : List Text) : Run Unit := do
  if let a :: _ := operands then misused 1 (lit "extra operand " ++ inQuotes a)

/-- Prints the user and the groups. -/
def id (args : List Text) : Run Nat := do
  let (given, names) ← options 1
    [⟨'u', "user", .nothing⟩, ⟨'g', "group", .nothing⟩, ⟨'G', "groups", .nothing⟩,
     ⟨'n', "name", .nothing⟩, ⟨'r', "real", .nothing⟩] args
  match names.find? fun name => name != lit "root" && name != ['0'] with
  | some name => stop 1 (inQuotes name ++ lit ": no such user")
  | none => do
    if ['u', 'g', 'G'].any given.has then
      Run.print (lit (if given.has 'n' then "root\n" else "0\n"))
    else if given.has 'n' || given.has 'r' then
      stop 1 (lit "cannot print only names or real IDs in default format")
    else Run.print (lit "uid=0(root) gid=0(root) groups=0(root)\n")
    return 0

/-- Prints the name of the user. -/
def whoami (args : List Text) : Run Nat := do
  let (_, operands) ← options 1 [] args
  withoutOperands operands
  Run.print (lit "root\n")
  return 0

/-- Prints the name of the system. -/
def uname (args : List Text) : Run Nat := do
  let (given, operands) ← options 1
    [⟨'s', "kernel-name", .nothing⟩, ⟨'m', "machine", .nothing⟩,
     ⟨'o', "operating-system", .nothing⟩] args
  withoutOperands operands
  let parts := [('s', "Linux"), ('m', "x86_64"), ('o', "GNU/Linux")].filter fun p =>
    given.has p.1 || (given.isEmpty && p.1 == 's')
  Run.print (Text.joinWith [' '] (parts.map fun p => lit p.2) ++ ['\n'])
  return 0

end IncrementalBuild.Shell.Tool
