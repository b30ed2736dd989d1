import IncrementalBuild.Host.Shell.Float
import IncrementalBuild.Host.Shell.State
/-!
# Printing

The commands of the shell that print their arguments.

## Main definitions

* `Shell.Escape.one`, `Shell.Escape.all` — the character an escape stands for, and a text with all
  its escapes resolved.
* `Shell.Conversion` — the parts of a conversion in a format.
* `Shell.echo` — prints its arguments.
* `Shell.printf` — prints its arguments by a format.

The shell's commands and the tools of the same names differ in a few escapes and in their messages;
`byTool` says which of them is at work.
-/

namespace IncrementalBuild.Shell

/-! ### Escapes -/

namespace Escape

/-- Whether a character is an octal digit. -/
def isOctal (c : Char) : Bool := '0' ≤ c && c ≤ '7'

/-- Whether a character is a hexadecimal digit. -/
def isHexadecimal (c : Char) : Bool := (digitIn? 16 c).isSome

/-- What the text behind a backslash stands for, with what is left; a backslash before any other
character stands for itself. Only the tools know hexadecimal digits. -/
def one (byTool : Bool) (cs : Text) : Char × Text :=
  match cs with
  | [] => ('\\', [])
  | c :: rest =>
    let octal := (cs.take 3).takeWhile isOctal
    if octal.isEmpty then
      match c with
      | '\\' => ('\\', rest)
      | 'a' => ('\x07', rest)
      | 'b' => ('\x08', rest)
      | 'e' => ('\x1b', rest)
      | 'f' => ('\x0c', rest)
      | 'n' => ('\n', rest)
      | 'r' => ('\r', rest)
      | 't' => ('\t', rest)
      | 'v' => ('\x0b', rest)
      | 'x' =>
        let ds := (rest.take 2).takeWhile isHexadecimal
        if byTool && !ds.isEmpty then (Char.ofNat (valueIn 16 ds), rest.drop ds.length)
        else ('\\', cs)
      | _ => ('\\', cs)
    else (Char.ofNat (valueIn 8 octal % 256), cs.drop octal.length)

/-- A text with its escapes resolved, and whether one of them cut it short. A zero before octal
digits is not counted among them. -/
def allWithin (byTool : Bool) : Nat → Text → Text × Bool
  | 0, _ => ([], false)
  | _ + 1, [] => ([], false)
  | _ + 1, '\\' :: 'c' :: _ => ([], true)
  | fuel + 1, '\\' :: rest =>
    let start := match rest with
      | '0' :: d :: _ => if isOctal d then rest.drop 1 else rest
      | _ => rest
    let (c, left) := one byTool start
    let more := allWithin byTool fuel left
    (c :: more.1, more.2)
  | fuel + 1, c :: rest =>
    let more := allWithin byTool fuel rest
    (c :: more.1, more.2)

/-- A text with its escapes resolved, and whether one of them cut it short. -/
def all (byTool : Bool) (cs : Text) : Text × Bool := allWithin byTool (cs.length + 1) cs

end Escape

/-! ### Conversions -/

/-- A conversion of a format, without its letter. -/
structure Conversion where
  flags : List Char
  width : Nat
  /-- The number of digits or characters, if it is given. -/
  precision : Option Nat

namespace Conversion

/-- Fills a text up to the width. Zeros may be put behind a sign. -/
def pad (v : Conversion) (zeros : Bool) (sign body : Text) : Text :=
  let missing := v.width - (sign.length + body.length)
  if v.flags.contains '-' then sign ++ body ++ List.replicate missing ' '
  else if zeros && v.flags.contains '0' then sign ++ List.replicate missing '0' ++ body
  else List.replicate missing ' ' ++ sign ++ body

/-- The sign that is written before a number. -/
def sign (v : Conversion) (negative : Bool) : Text :=
  if negative then ['-']
  else if v.flags.contains '+' then ['+']
  else if v.flags.contains ' ' then [' ']
  else []

/-- A text, cut to the precision. -/
def text (v : Conversion) (cs : Text) : Text :=
  v.pad false [] (match v.precision with | some n => cs.take n | none => cs)

/-- Digits, at least as many as the precision asks for. -/
def digits (v : Conversion) (n : Nat) (ds : Text) : Text :=
  match v.precision with
  | none => ds
  | some p => if p = 0 ∧ n = 0 then [] else List.replicate (p - ds.length) '0' ++ ds

/-- A whole number. -/
def integer (v : Conversion) (n : Int) : Text :=
  let ds := v.digits n.natAbs (Text.ofNat n.natAbs)
  v.pad v.precision.isNone (v.sign (n < 0)) ds

/-- A natural number in a base. -/
def natural (v : Conversion) (base : Nat) (upper : Bool) (n : Nat) : Text :=
  let ds := v.digits n (Nat.toDigits base n)
  let ds := if upper then ds.map Char.toUpper else ds
  let special := v.flags.contains '#'
  let ds := if special && base == 8 && ds.head? != some '0' then '0' :: ds else ds
  let start : Text :=
    if special && base == 16 && n != 0 then (if upper then ['0', 'X'] else ['0', 'x']) else []
  v.pad v.precision.isNone start ds

/-- An exponent with its sign and at least two digits. -/
def exponent (letter : Char) (e : Int) : Text :=
  let ds := Text.ofNat e.natAbs
  letter :: (if e < 0 then '-' else '+') :: (List.replicate (2 - ds.length) '0' ++ ds)

/-- The digits of a fraction as a letter asks for. -/
def fraction (v : Conversion) (letter : Char) (f : Fraction) : Text :=
  let places := v.precision.getD 6
  let special := v.flags.contains '#'
  let join (whole part : Text) : Text :=
    if part.isEmpty && !special then whole else whole ++ '.' :: part
  let scientific (places : Nat) (strip : Bool) : Text :=
    let (ds, e) := f.scientific places
    let part := ds.drop 1
    let part := if strip then (part.reverse.dropWhile (· == '0')).reverse else part
    join (ds.take 1) part ++ exponent (if letter.isUpper then 'E' else 'e') e
  match letter.toLower with
  | 'f' =>
    let (whole, part) := f.fixed places
    join whole part
  | 'e' => scientific places false
  | _ =>
    let significant := if places = 0 then 1 else places
    let e := (f.scientific (significant - 1)).2
    if -4 ≤ e ∧ e < significant then
      let (whole, part) := f.fixed ((significant : Int) - 1 - e).toNat
      join whole (if special then part else (part.reverse.dropWhile (· == '0')).reverse)
    else scientific (significant - 1) (!special)

/-- A number with a fraction. -/
def real (v : Conversion) (letter : Char) (r : Real) : Text :=
  let cased (cs : Text) : Text := if letter.isUpper then cs.map Char.toUpper else cs
  match r.magnitude with
  | .finite f => v.pad true (v.sign r.negative) (v.fraction letter f)
  | .infinite => v.pad false (v.sign r.negative) (cased (lit "inf"))
  | .notANumber => v.pad false (v.sign r.negative) (cased (lit "nan"))

end Conversion

/-! ### Commands -/

/-- Prints arguments, with their escapes resolved and blanks between them. -/
def echo (args : List Text) : Run Nat := do
  let (line, args) := match args with
    | ['-', 'n'] :: rest => (false, rest)
    | _ => (true, args)
  let (out, cut) := Escape.all false (Text.joinWith [' '] args)
  Run.print (if line && !cut then out ++ ['\n'] else out)
  return 0

namespace Printf

/-- What has been printed, and the arguments that are left. -/
structure Progress where
  byTool : Bool
  out : Text := []
  args : List Text
  /-- Whether a conversion asked for an argument. -/
  asked : Bool := false
  status : Nat := 0
  /-- Whether an escape ended the output. -/
  cut : Bool := false

/-- A step of printing by a format. -/
abbrev Step := StateT Progress Run

/-- Prints a text. -/
def put (cs : Text) : Step Unit := modify fun p => { p with out := p.out ++ cs }

/-- The next argument, if there is one. -/
def argument : Step (Option Text) :=
  modifyGet fun p => (p.args.head?, { p with args := p.args.tail, asked := true })

/-- Writes a message of the command. -/
def tell (message : Text) : Step Unit := do
  let byTool := (← get).byTool
  liftM (do
    if byTool then Run.complain ((← get).zero ++ lit ": " ++ message)
    else Run.warn message : Run Unit)

/-- What can be wrong with an argument that has to be a number. -/
inductive NumberFault
  | missing
  | trailing
  | beyond
  deriving DecidableEq, Repr

/-- The message for an argument that is not a number. -/
def NumberFault.message (byTool : Bool) (argument : Text) : NumberFault → Text
  | .missing =>
    if byTool then inQuotes argument ++ lit ": expected a numeric value"
    else argument ++ lit ": expected numeric value"
  | .trailing =>
    if byTool then inQuotes argument ++ lit ": value not completely converted"
    else argument ++ lit ": not completely converted"
  | .beyond =>
    (if byTool then inQuotes argument else argument) ++ lit ": Numerical result out of range"

/-- Warns about an argument. -/
def object (argument : Text) (fault : NumberFault) : Step Unit := do
  tell (fault.message (← get).byTool argument)
  modify fun p => { p with status := 1 }

/-- Warns where an argument was not taken whole as a number. -/
def check (argument rest : Text) (found beyond : Bool) : Step Unit := do
  if !rest.isEmpty then object argument (if found then .trailing else .missing)
  else if beyond then object argument .beyond

/-- The code of the character behind a quote, if an argument starts with one. -/
def quoted? : Text → Option Nat
  | q :: rest => if q == '"' || q == '\'' then some ((rest.head?.map Char.toNat).getD 0) else none
  | [] => none

/-- The next argument as a whole number. -/
def integer : Step Int := do
  match ← argument with
  | none => return 0
  | some a =>
    match quoted? a with
    | some n => return n
    | none =>
      let p := integerPrefix true a
      check a p.rest p.found p.cut
      return p.value

/-- The largest natural number in 64 bits. -/
def maxNatural : Nat := 18446744073709551615

/-- The next argument as a natural number in 64 bits; a negative one is counted from their end. -/
def natural : Step Nat := do
  match ← argument with
  | none => return 0
  | some a =>
    match quoted? a with
    | some n => return n
    | none =>
      let bare := a.dropWhile isSpaceLike
      let (negative, unsigned) := match bare with
        | '-' :: rest => (true, rest)
        | '+' :: rest => (false, rest)
        | _ => (false, bare)
      match naturalPrefix? true unsigned with
      | none => do
        check a a false false
        return 0
      | some (n, rest) => do
        check a rest true (maxNatural < n)
        if maxNatural < n then return maxNatural
        else return if negative then (maxNatural + 1 - n) % (maxNatural + 1) else n

/-- The next argument as a number with a fraction. -/
def real : Step Real := do
  match ← argument with
  | none => return ⟨false, .finite ⟨0, 1⟩⟩
  | some a =>
    match quoted? a with
    | some n => return ⟨false, .finite ⟨n, 1⟩⟩
    | none =>
      let r := Real.read a
      check a r.rest r.found r.beyond
      return r.value

/-- The characters that may stand in a conversion as flags. -/
def isFlag (c : Char) : Bool := ['#', '-', '+', ' ', '0'].contains c

/-- The characters that are skipped as a width or a precision. -/
def isWidth (c : Char) : Bool := c == '*' || c.isDigit

/-- A number that is written in a format or taken from the arguments, and what follows it. -/
def width (format : Text) : Step (Int × Text) := do
  match format with
  | '*' :: rest => return (← integer, rest)
  | _ =>
    let written := format.takeWhile isWidth
    return ((valueOf (written.takeWhile Char.isDigit) : Nat), format.drop written.length)

/-- Reports a failure, after which what has been printed comes out. -/
def breakOff (message : Text) : Step Unit := do
  let p ← get
  tell message
  liftM (do
    Run.print p.out
    if p.byTool then Run.stop 1 .exit else Run.stop 2 .failure : Run Unit)

/-- Prints one conversion of a format, given what follows its percent sign; what is left of the
format. -/
def conversion (format : Text) : Step Text := do
  let flags := format.takeWhile isFlag
  let (width, rest) ← width (format.drop flags.length)
  let flags := if width < 0 then '-' :: flags else flags
  let (precision, rest) ← match rest with
    | '.' :: more => do
      let (n, rest) ← Printf.width more
      pure (if n < 0 then none else some n.toNat, rest)
    | _ => pure (none, rest)
  let v : Conversion := ⟨flags, width.natAbs, precision⟩
  let byTool := (← get).byTool
  match rest with
  | [] => do
    breakOff (if byTool then '%' :: format ++ lit ": invalid conversion specification"
      else lit "missing format character")
    return []
  | letter :: left =>
    match letter with
    | 's' => put (v.text ((← argument).getD []))
    | 'b' => do
      let (cs, cut) := Escape.all byTool ((← argument).getD [])
      put (v.text cs)
      if cut then modify fun p => { p with cut }
    | 'c' => put (v.pad false [] [((← argument).bind List.head?).getD '\x00'])
    | 'd' | 'i' => put (v.integer (← integer))
    | 'u' => put (v.natural 10 false (← natural))
    | 'o' => put (v.natural 8 false (← natural))
    | 'x' => put (v.natural 16 false (← natural))
    | 'X' => put (v.natural 16 true (← natural))
    | 'e' | 'E' | 'f' | 'F' | 'g' | 'G' => put (v.real letter (← real))
    | _ =>
      let written := '%' :: format.take (format.length - left.length)
      breakOff (written ++ lit (if byTool then ": invalid conversion specification"
        else ": invalid directive"))
    return left

/-- Prints a format once. -/
def once : Nat → Text → Step Unit
  | 0, _ => return
  | _ + 1, [] => return
  | fuel + 1, '\\' :: rest => do
    match (← get).byTool, rest with
    | true, 'c' :: _ => modify fun p => { p with cut := true }
    | true, '"' :: left => do
      put ['"']
      once fuel left
    | byTool, _ => do
      let (c, left) := Escape.one byTool rest
      put [c]
      once fuel left
  | fuel + 1, '%' :: '%' :: rest => do
    put ['%']
    once fuel rest
  | fuel + 1, '%' :: rest => do
    let left ← conversion rest
    if (← get).cut then return else once fuel left
  | fuel + 1, c :: rest => do
    put [c]
    once fuel rest

/-- Prints a format until the arguments are used up. -/
def again (format : Text) : Nat → Step Unit
  | 0 => return
  | fuel + 1 => do
    modify fun p => { p with asked := false }
    once (format.length + 1) format
    let p ← get
    if p.asked && !p.args.isEmpty && !p.cut then again format fuel else return

end Printf

/-- Refuses options where a command has none. Two minus signs end the options. -/
def withoutOptions (args : List Text) : Run (List Text) := do
  match args with
  | ['-', '-'] :: rest => return rest
  | ('-' :: c :: _) :: _ => Run.fail (lit "Illegal option -" ++ [c])
  | _ => return args

/-- Prints arguments by a format. -/
def printf (args : List Text) : Run Nat := do
  match ← withoutOptions args with
  | [] => Run.fail (lit "usage: printf format [arg ...]")
  | format :: args => do
    let ((), p) ← (Printf.again format (args.length + 1)).run { byTool := false, args }
    Run.print p.out
    return p.status

end IncrementalBuild.Shell
