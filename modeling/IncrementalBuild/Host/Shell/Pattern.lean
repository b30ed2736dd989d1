import IncrementalBuild.Host.Shell.Text
/-!
# Patterns of the shell

The patterns of the shell's branches, trims and file names: `*`, `?` and sets in brackets.

## Main definitions

* `Shell.Mark`, `Shell.Marked` — a text in which some characters are quoted and so stand for
  themselves.
* `Shell.CharClass` — the named classes of characters.
* `Shell.Glob`, `Shell.Glob.ofMarked` — a pattern, and how it is read.
* `Shell.Glob.matchesAll`, `Shell.Glob.trim` — whether it matches a whole text, and a text without
  what it matches at an end.
-/

namespace IncrementalBuild.Shell

/-- A part of an expanded word: a character, or the place of a quotation mark. -/
inductive Mark
  | character (c : Char) (quoted : Bool)
  | quote
  deriving DecidableEq, Repr

/-- An expanded word. -/
abbrev Marked := List Mark

namespace Marked

/-- The text of an expanded word. -/
def text (m : Marked) : Text :=
  m.filterMap fun
    | .character c _ => some c
    | .quote => none

/-- A text in which all or none is quoted. -/
def ofText (quoted : Bool) (cs : Text) : Marked := cs.map fun c => .character c quoted

/-- The characters of an expanded word. -/
def characters (m : Marked) : List (Char × Bool) :=
  m.filterMap fun
    | .character c quoted => some (c, quoted)
    | .quote => none

end Marked

/-! ### Classes of characters -/

namespace CharClass

/-- The class with a name. -/
def named? (name : Text) : Option (Char → Bool) :=
  match String.ofList name with
  | "alnum" => some Char.isAlphanum
  | "alpha" => some Char.isAlpha
  | "blank" => some fun c => c == ' ' || c == '\t'
  | "cntrl" => some fun c => c < ' ' || c == '\x7f'
  | "digit" => some Char.isDigit
  | "graph" => some isPrinted
  | "lower" => some Char.isLower
  | "print" => some fun c => isPrinted c || c == ' '
  | "punct" => some isPunctuation
  | "space" => some isSpaceLike
  | "upper" => some Char.isUpper
  | "xdigit" => some fun c => (digitIn? 16 c).isSome
  | _ => none

/-- The name of a class written after an opening bracket and a colon, and what follows it. -/
def name? (cs : Text) : Option (Text × Text) :=
  let name := cs.takeWhile Char.isLower
  match cs.drop name.length with
  | ':' :: ']' :: rest => some (name, rest)
  | _ => none

end CharClass

/-- A member of a set of characters. -/
inductive Member
  | range (first last : Char)
  | named (name : Text)
  deriving DecidableEq, Repr

/-- Bytes in the order in which the shell compares them: those above the middle come first. -/
def byteOrder (c : Char) : Int := if 128 ≤ c.toNat then (c.toNat : Int) - 256 else c.toNat

/-- Whether a character is meant by a member. -/
def Member.contains : Member → Char → Bool
  | .range first last, c => byteOrder first ≤ byteOrder c && byteOrder c ≤ byteOrder last
  | .named name, c => ((CharClass.named? name).getD fun _ => false) c

/-- One element of a pattern. -/
inductive Glob
  | character (c : Char)
  | anyCharacter
  | anyText
  | oneOf (complemented : Bool) (members : List Member)
  deriving DecidableEq, Repr

namespace Glob

/-- A character of a set, which a backslash may stand before. -/
def setCharacter : List (Char × Bool) → Option (Char × List (Char × Bool))
  | ('\\', false) :: (c, _) :: rest => some (c, rest)
  | (c, _) :: rest => some (c, rest)
  | [] => none

/-- The members of a set up to its closing bracket, and what follows it; a closing bracket in the
first place is a member. -/
def membersOf : Nat → Bool → List (Char × Bool) → Option (List Member × List (Char × Bool))
  | 0, _, _ => none
  | _ + 1, _, [] => none
  | fuel + 1, first, c :: rest =>
    if c == (']', false) && !first then some ([], rest)
    else
      let class? : Option (Text × List (Char × Bool)) :=
        if c == ('[', false) then
          match rest with
          | (':', false) :: inside =>
            (CharClass.name? (inside.map Prod.fst)).map fun r =>
              (r.1, inside.drop (inside.length - r.2.length))
          | _ => none
        else none
      match class? with
      | some (name, after) =>
        (membersOf fuel false after).map fun r => (.named name :: r.1, r.2)
      | none =>
        match setCharacter (c :: rest) with
        | none => none
        | some (low, after) =>
          match after with
          | ('-', false) :: (d, q) :: more =>
            if (d, q) == (']', false) then
              (membersOf fuel false after).map fun r => (.range low low :: r.1, r.2)
            else
              match setCharacter ((d, q) :: more) with
              | some (high, after) =>
                (membersOf fuel false after).map fun r => (.range low high :: r.1, r.2)
              | none => none
          | _ => (membersOf fuel false after).map fun r => (.range low low :: r.1, r.2)

/-- Reads a pattern from characters; those marked as quoted stand for themselves. -/
def ofCharacters : Nat → List (Char × Bool) → List Glob
  | 0, _ => []
  | _ + 1, [] => []
  | fuel + 1, (c, quoted) :: rest =>
    if quoted then .character c :: ofCharacters fuel rest
    else
      match c with
      | '*' => .anyText :: ofCharacters fuel rest
      | '?' => .anyCharacter :: ofCharacters fuel rest
      | '[' =>
        let (complemented, inside) := match rest with
          | ('!', false) :: inside => (true, inside)
          | _ => (false, rest)
        match membersOf (inside.length + 1) true inside with
        | some (members, after) => .oneOf complemented members :: ofCharacters fuel after
        | none => .character c :: ofCharacters fuel rest
      | '\\' =>
        match rest with
        | (d, _) :: others => .character d :: ofCharacters fuel others
        | [] => [.character c]
      | _ => .character c :: ofCharacters fuel rest

/-- Reads a pattern from an expanded word. -/
def ofMarked (m : Marked) : List Glob := ofCharacters (m.length + 1) m.characters

/-- Whether a pattern matches a whole text. -/
def matchesAll : List Glob → Text → Bool
  | [], cs => cs.isEmpty
  | .anyText :: ps, [] => matchesAll ps []
  | .anyText :: ps, c :: cs => matchesAll ps (c :: cs) || matchesAll (.anyText :: ps) cs
  | .character d :: ps, c :: cs => d == c && matchesAll ps cs
  | .anyCharacter :: ps, _ :: cs => matchesAll ps cs
  | .oneOf complemented members :: ps, c :: cs =>
    (complemented != members.any fun m => m.contains c) && matchesAll ps cs
  | _ :: _, [] => false
termination_by ps cs => ps.length + cs.length

/-- The text without the shortest or longest part at one end that the pattern matches. -/
def trim (atEnd longest : Bool) (ps : List Glob) (cs : Text) : Text :=
  let lengths := List.range (cs.length + 1)
  -- A long part at the end starts early.
  let candidates := if longest != atEnd then lengths.reverse else lengths
  if atEnd then
    match candidates.find? fun n => matchesAll ps (cs.drop n) with
    | some n => cs.take n
    | none => cs
  else
    match candidates.find? fun n => matchesAll ps (cs.take n) with
    | some n => cs.drop n
    | none => cs

end Glob
end IncrementalBuild.Shell
