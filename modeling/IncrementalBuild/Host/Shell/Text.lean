import IncrementalBuild.Path.Basic
import IncrementalBuild.Text.Bytes
/-!
# Texts of the shell

The shell and its tools work on bytes. Their texts are lists of characters with codes below 256,
each of which stands for one byte.

## Main definitions

* `Shell.Text` — a byte string, with `ofBytes`, `toBytes`, `ofString`, `toString`, `toPath`.
* `Shell.Text.lines` — the lines of a text, each with its line feed.
* `Shell.integerPrefix` — the whole number at the front of a text.
-/

namespace IncrementalBuild.Shell

/-- A byte string; every character stands for one byte. -/
abbrev Text := List Char

namespace Text

/-- A byte string as text of the shell. -/
def ofBytes (bs : Bytes) : Text := bs.map fun b => Char.ofNat b.toNat

/-- The bytes of a text of the shell. -/
def toBytes (cs : Text) : Bytes := cs.map fun c => UInt8.ofNat c.toNat

/-- A string as text of the shell. -/
def ofString (s : String) : Text := ofBytes (Bytes.ofString s)

/-- A text of the shell as a string. -/
def toString (cs : Text) : String := (toBytes cs).toLossyString

/-- A text of the shell as a path. -/
def toPath (cs : Text) : Path := ⟨toString cs⟩

/-- The decimal digits of a number. -/
def ofNat (n : Nat) : Text := (ToString.toString n).toList

/-- The decimal digits of a number, after a minus sign if it is negative. -/
def ofInt (n : Int) : Text := (ToString.toString n).toList

/-- The text without the line feeds at its end. -/
def dropLastLines (cs : Text) : Text := (cs.reverse.dropWhile (· == '\n')).reverse

/-- The lines of a text, each with the line feed that ends it; the last one may lack it. `line`
holds the characters of the line in progress, in reverse. -/
def linesFrom (line : Text) : Text → List Text
  | [] => if line.isEmpty then [] else [line.reverse]
  | '\n' :: rest => ('\n' :: line).reverse :: linesFrom [] rest
  | c :: rest => linesFrom (c :: line) rest

/-- The lines of a text, each with the line feed that ends it; the last one may lack it. -/
def lines (cs : Text) : List Text := linesFrom [] cs

/-- The text between separators: one piece more than there are separators. -/
def splitAt (separator : Char) (cs : Text) : List Text := Blank.pieces (· == separator) cs

/-- Texts with a separator between them. -/
def joinWith (separator : Text) (parts : List Text) : Text := separator.intercalate parts

/-- Whether a text contains another one. -/
def includes (part : Text) : Text → Bool
  | [] => part.isEmpty
  | c :: cs => part.isPrefixOf (c :: cs) || includes part cs

/-- The order of texts by their bytes. -/
def before (a b : Text) : Bool := decide (a.map Char.toNat < b.map Char.toNat)

end Text

/-- A text of a message. -/
def lit (s : String) : Text := Text.ofString s

/-- A text between single quotes. -/
def inQuotes (cs : Text) : Text :=
  let inside := cs.flatMap fun c => if c == '\'' then ['\'', '\\', '\'', '\''] else [c]
  '\'' :: inside ++ ['\'']

/-! ### Characters -/

/-- Whether a character can start a variable's name. -/
def startsName (c : Char) : Bool := c.isAlpha || c == '_'

/-- Whether a character can continue a variable's name. -/
def continuesName (c : Char) : Bool := c.isAlphanum || c == '_'

/-- Whether a text is the name of a variable. -/
def isName (cs : Text) : Bool := (cs.head?.map startsName).getD false && cs.all continuesName

/-- The white space between words of a number's surroundings. -/
def isSpaceLike (c : Char) : Bool := ('\t' ≤ c && c ≤ '\r') || c == ' '

/-- Whether a character is printed. -/
def isPrinted (c : Char) : Bool := ' ' < c && c < '\x7f'

/-- Whether a character is punctuation. -/
def isPunctuation (c : Char) : Bool := isPrinted c && !c.isAlphanum

/-! ### Numbers -/

/-- The value of a digit in a base up to sixteen. -/
def digitIn? (base : Nat) (c : Char) : Option Nat := (Bytes.hexValue? c).filter (· < base)

/-- The value of digits in a base. -/
def valueIn (base : Nat) (ds : Text) : Nat :=
  ds.foldl (fun n d => n * base + (digitIn? base d).getD 0) 0

/-- The value of decimal digits. -/
def valueOf (ds : Text) : Nat := valueIn 10 ds

/-- Whether a text is a decimal number without a sign. -/
def isNatural (cs : Text) : Bool := !cs.isEmpty && cs.all Char.isDigit

/-- The largest whole number in 64 bits with a sign. -/
def maxInteger : Int := 9223372036854775807

/-- The smallest whole number in 64 bits with a sign. -/
def minInteger : Int := -9223372036854775808

/-- A whole number reduced to 64 bits with a sign. -/
def wrapInteger (n : Int) : Int := n.bmod 18446744073709551616

/-- The natural number at the front of a text in C's notation: `0x` starts hexadecimal digits and
`0` octal ones. -/
def naturalPrefix? (anyBase : Bool) (cs : Text) : Option (Nat × Text) :=
  let take (base : Nat) (cs : Text) : Nat × Text :=
    let ds := cs.takeWhile fun c => (digitIn? base c).isSome
    (valueIn base ds, cs.drop ds.length)
  match cs with
  | '0' :: x :: d :: rest =>
    if anyBase && (x == 'x' || x == 'X') && (digitIn? 16 d).isSome then some (take 16 (d :: rest))
    else some (take (if anyBase then 8 else 10) cs)
  | '0' :: _ => some (take (if anyBase then 8 else 10) cs)
  | c :: _ => if c.isDigit then some (take 10 cs) else none
  | [] => none

/-- A number that was read from the front of a text. -/
structure IntegerPrefix where
  /-- The number, cut to 64 bits. -/
  value : Int
  /-- Whether it had to be cut. -/
  cut : Bool
  /-- What follows it. -/
  rest : Text
  /-- Whether there were digits at all. -/
  found : Bool

/-- The whole number at the front of a text, after white space and perhaps a sign. Without digits
it is zero, and the rest is the whole text. -/
def integerPrefix (anyBase : Bool) (cs : Text) : IntegerPrefix :=
  let bare := cs.dropWhile isSpaceLike
  let (negative, unsigned) := match bare with
    | '-' :: rest => (true, rest)
    | '+' :: rest => (false, rest)
    | _ => (false, bare)
  match naturalPrefix? anyBase unsigned with
  | none => ⟨0, false, cs, false⟩
  | some (n, rest) =>
    let value : Int := if negative then -(n : Int) else n
    if maxInteger < value then ⟨maxInteger, true, rest, true⟩
    else if value < minInteger then ⟨minInteger, true, rest, true⟩
    else ⟨value, false, rest, true⟩

/-- The whole number that a text holds in C's notation or in decimal digits alone, perhaps between
white space. A blank text is zero in C's notation and none otherwise. -/
def integer? (anyBase : Bool) (cs : Text) : Option Int :=
  let p := integerPrefix anyBase cs
  if p.cut || (!anyBase && !p.found) then none
  else if p.found then (if p.rest.all isSpaceLike then some p.value else none)
  else if cs.all isSpaceLike then some 0
  else none

/-- The largest number that counts as a small one. -/
def maxSmall : Int := 2147483647

/-- The number that a text holds where a small natural number is asked for. -/
def small? (cs : Text) : Option Nat :=
  match integer? false cs with
  | some n => if 0 ≤ n ∧ n ≤ maxSmall then some n.toNat else none
  | none => none

end IncrementalBuild.Shell
