import IncrementalBuild.Host.Shell.Pattern
/-!
# Regular expressions

The expressions that the line tools search for, in their basic and their extended notation.

## Main definitions

* `Shell.Regex` — expressions: characters and sets, places, groups and references to them, choices
  and repetitions.
* `Shell.Regex.read` — reads an expression.
* `Shell.Regex.search` — the first of the longest matches in a text.

## Which match is found

Of the matches that start earliest the longest one is found. What its groups hold is decided from
the left: each part takes as much as it can.
-/

namespace IncrementalBuild.Shell

/-- A place in a text. -/
inductive Spot
  | textStart
  | textEnd
  | lineStart
  | lineEnd
  | wordStart
  | wordEnd
  | wordEdge
  | insideOrOutside
  deriving DecidableEq, Repr

/-- A regular expression. -/
inductive Regex
  | empty
  | character (c : Char)
  | anyCharacter
  | oneOf (complemented : Bool) (members : List Member)
  | spot (s : Spot)
  | group (number : Nat) (body : Regex)
  /-- What a group holds, once more. -/
  | again (number : Nat)
  | both (first second : Regex)
  | either (first second : Regex)
  | times (body : Regex) (least : Nat) (most : Option Nat)
  deriving DecidableEq, Repr

namespace Regex

/-! ### Reading -/

/-- How expressions are written. -/
structure Dialect where
  /-- Whether operators stand without a backslash. -/
  extended : Bool
  /-- Whether operators with nothing to work on are put up with. -/
  lenient : Bool := false
  deriving DecidableEq, Repr

/-- A part of an expression's notation. -/
inductive Lexeme
  | one (r : Regex)
  | opening
  | closing
  | bar
  | times (least : Nat) (most : Option Nat)
  /-- A repetition of nothing, as it is written. -/
  | idle (operator : String)
  deriving DecidableEq, Repr

/-- The message for a bracket that is not closed. -/
def openBracket : String := "Unmatched [, [^, [:, [., or [="

/-- The message for the bounds of a repetition that are none. -/
def badBounds : String := "Invalid content of \\\x7b\\\x7d"

/-- The message for a repetition of nothing. -/
def badRepetition : String := "Invalid preceding regular expression"

/-- The element written after an opening bracket and a dot or an equals sign. -/
def element (mark : Char) (cs : Text) : Except String (Char × Text) :=
  match cs with
  | c :: m :: ']' :: rest =>
    if m == mark then .ok (c, rest) else .error "Invalid collation character"
  | _ => .error openBracket

/-- One end of a range in brackets, with what follows it. -/
def rangeEnd (cs : Text) : Except String (Char × Text) :=
  match cs with
  | '[' :: '.' :: rest => element '.' rest
  | '[' :: '=' :: rest => element '=' rest
  | c :: rest => .ok (c, rest)
  | [] => .error openBracket

/-- The members of a set up to its closing bracket; one in the first place is a member. -/
def members : Nat → Bool → Text → Except String (List Member × Text)
  | 0, _, _ => .error openBracket
  | fuel + 1, first, cs =>
    match cs with
    | [] => .error openBracket
    | ']' :: rest => if first then range fuel cs else .ok ([], rest)
    | '[' :: ':' :: rest =>
      match CharClass.name? rest with
      | none => .error openBracket
      | some (name, after) =>
        if (CharClass.named? name).isNone then .error "Invalid character class name"
        else do
          let (more, left) ← members fuel false after
          return (.named name :: more, left)
    | _ => range fuel cs
where
  /-- A character or a range, and the members after it. -/
  range (fuel : Nat) (cs : Text) : Except String (List Member × Text) := do
    let (low, rest) ← rangeEnd cs
    match rest with
    | '-' :: d :: more =>
      if d == ']' then
        let (others, left) ← members fuel false rest
        return (.range low low :: others, left)
      else
        let (high, after) ← rangeEnd (d :: more)
        if high < low then throw "Invalid range end"
        let (others, left) ← members fuel false after
        return (.range low high :: others, left)
    | _ =>
      let (others, left) ← members fuel false rest
      return (.range low low :: others, left)

/-- A set after its opening bracket, with what follows the closing one. -/
def bracketed (d : Dialect) (cs : Text) : Except String (Regex × Text) := do
  let (complemented, inside) := match cs with
    | '^' :: inside => (true, inside)
    | _ => (false, cs)
  if inside.isEmpty then throw "Invalid regular expression"
  let (all, after) ← members (inside.length + 1) true inside
  let written : Text := inside.take (inside.length - after.length - 1)
  let isClass := !complemented && 2 < written.length && written.head? == some ':'
    && written.getLast? == some ':' && !written.contains '['
  if d.lenient && isClass then
    throw "character class syntax is [[:space:]], not [:space:]"
  return (.oneOf complemented all, after)

/-- The characters of words. -/
def wordMembers : List Member := [.named (lit "alnum"), .range '_' '_']

/-- What a letter after a backslash stands for. -/
def escaped? : Char → Option Regex
  | 'w' => some (.oneOf false wordMembers)
  | 'W' => some (.oneOf true wordMembers)
  | 's' => some (.oneOf false [.named (lit "space")])
  | 'S' => some (.oneOf true [.named (lit "space")])
  | 'b' => some (.spot .wordEdge)
  | 'B' => some (.spot .insideOrOutside)
  | '<' => some (.spot .wordStart)
  | '>' => some (.spot .wordEnd)
  | '\x60' => some (.spot .textStart)
  | '\'' => some (.spot .textEnd)
  | 'n' => some (.character '\n')
  | _ => none

/-- A text up to a comma or the end of the bounds, and the rest. -/
def upToBound (closing : Text) : Text → Text × Text
  | [] => ([], [])
  | c :: rest =>
    if c == ',' || closing.isPrefixOf (c :: rest) then ([], c :: rest)
    else
      let (taken, left) := upToBound closing rest
      (c :: taken, left)

/-- Whether a number is below a bound, where there is one. -/
def isBelow (n : Nat) : Option Nat → Bool
  | some bound => n < bound
  | none => true

/-- How often something may be repeated at most where that is written. -/
def mostTimes : Nat := 32767

/-- The bounds of a repetition after their opening brace, with what follows the closing one; none
if the brace stands for itself. -/
def bounds (d : Dialect) (cs : Text) : Except String (Option (Nat × Option Nat × Text)) := do
  let closing : Text := if d.extended then ['\x7d'] else ['\\', '\x7d']
  let broken (rest : Text) : Except String (Option (Nat × Option Nat × Text)) :=
    if d.lenient && d.extended then .ok none
    else if rest.isEmpty then .error "Unmatched \\\x7b"
    else .error badBounds
  let isBound (ds : Text) : Bool := ds.all Char.isDigit
  let finish (least : Nat) (most : Option Nat) (rest : Text) := do
    if !isBelow least (most.map (· + 1)) then throw badBounds
    if mostTimes < most.getD least then throw "Regular expression too big"
    return some (least, most, rest.drop closing.length)
  let (first, rest) := upToBound closing cs
  match rest with
  | [] => broken rest
  | ',' :: more =>
    if !isBound first then broken rest
    else
      let (second, rest) := upToBound closing more
      if rest.isEmpty || !isBound second then broken rest
      else if rest.head? == some ',' then throw badBounds
      else finish (valueOf first) (if second.isEmpty then none else some (valueOf second)) rest
  | _ =>
    if first.isEmpty then throw badBounds
    else if !isBound first then broken rest
    else finish (valueOf first) (some (valueOf first)) rest

/-- Whether a repetition has nothing to repeat after some lexeme. -/
def startsAfresh : Option Lexeme → Bool
  | none | some .opening | some .bar | some (.idle _) => true
  | some (.one (.spot _)) => true
  | _ => false

/-- Splits an expression into its parts. `last` is the part before. -/
def lexemes (d : Dialect) : Nat → Option Lexeme → Text → Except String (List Lexeme)
  | 0, _, _ => .ok []
  | _ + 1, _, [] => .ok []
  | fuel + 1, last, c :: rest =>
    let next (x : Lexeme) (left : Text) : Except String (List Lexeme) :=
      (lexemes d fuel (some x) left).map (x :: ·)
    let plain (c : Char) (left : Text) := next (.one (.character c)) left
    -- What an operator does that has nothing to work on.
    let idle (operator : String) (left : Text) : Except String (List Lexeme) :=
      if d.lenient then next (.idle operator) left else .error badRepetition
    let repeatsTwice : Bool := match last with
      | some (.times _ _) => !d.extended && !d.lenient
      | _ => false
    let repeated (least : Nat) (most : Option Nat) : Except String (List Lexeme) :=
      if startsAfresh last then if d.extended then idle c.toString rest else plain c rest
      else next (.times least most) rest
    let interval (left : Text) : Except String (List Lexeme) :=
      if startsAfresh last && !d.lenient || repeatsTwice then .error badRepetition
      else if startsAfresh last && !d.extended then plain '\x7b' left
      else do
        match ← bounds d left with
        | none => plain '\x7b' left
        | some (least, most, after) =>
          if startsAfresh last then idle "\x7b...\x7d" after else next (.times least most) after
    match c with
    | '.' => next (.one .anyCharacter) rest
    | '[' => do
      let (r, after) ← bracketed d rest
      next (.one r) after
    | '*' => if repeatsTwice then .error badRepetition else repeated 0 none
    | '^' =>
      let starts := match last with
        | none | some .opening | some .bar => true
        | _ => false
      if d.extended || starts then next (.one (.spot .lineStart)) rest else plain c rest
    | '$' =>
      let ends := match rest with
        | [] => true
        | '\\' :: d :: _ => d == ')' || d == '|'
        | _ => false
      if d.extended || ends then next (.one (.spot .lineEnd)) rest else plain c rest
    | '\\' =>
      match rest with
      | [] => .error "Trailing backslash"
      | e :: after =>
        if e.isDigit && e != '0' then next (.one (.again (valueOf [e]))) after
        else
          match escaped? e with
          | some r => next (.one r) after
          | none =>
            if d.extended then plain e after
            else
              match e with
              | '(' => next .opening after
              | ')' => next .closing after
              | '|' => next .bar after
              | '+' => if startsAfresh last then plain e after else next (.times 1 none) after
              | '?' => if startsAfresh last then plain e after else next (.times 0 (some 1)) after
              | '\x7b' => interval after
              | _ => plain e after
    | '(' => if d.extended then next .opening rest else plain c rest
    | ')' => if d.extended then next .closing rest else plain c rest
    | '|' => if d.extended then next .bar rest else plain c rest
    | '+' => if d.extended then repeated 1 none else plain c rest
    | '?' => if d.extended then repeated 0 (some 1) else plain c rest
    | '\x7b' => if d.extended then interval rest else plain c rest
    | _ => plain c rest

/-- A step of reading: what is left, the number of groups that were opened, and how many of them
are open. -/
abbrev Step := StateT (List Lexeme × Nat × List Nat) (Except String)

/-- Adds repetitions that follow an expression. -/
def repeated (r : Regex) : List Lexeme → Regex × List Lexeme
  | .times least most :: rest => repeated (.times r least most) rest
  | rest => (r, rest)

/-- A choice between sequences, up to its end or a closing bracket. `before` and `sequence` are
what was read of the choice and of the sequence in progress. -/
def choice (d : Dialect) : Nat → (before : Option Regex) → (sequence : Regex) → Step Regex
  | 0, _, sequence => return sequence
  | fuel + 1, before, sequence => do
    let whole : Regex := match before with
      | some r => .either r sequence
      | none => sequence
    let follow (r : Regex) (rest : List Lexeme) (count : Nat) (depth : List Nat) : Step Regex := do
      let (r, rest) := repeated r rest
      set (rest, count, depth)
      choice d fuel before (if sequence = .empty then r else .both sequence r)
    let (rest, count, depth) ← get
    match rest with
    | [] =>
      if depth.isEmpty then return whole
      else throw "Unmatched ( or \\("
    | .bar :: rest => do
      set (rest, count, depth)
      choice d fuel (some whole) .empty
    | .closing :: rest =>
      match depth with
      | _ :: outer => do
        set (rest, count, outer)
        return whole
      | [] =>
        if d.extended && d.lenient then follow (.character ')') rest count depth
        else throw "Unmatched ) or \\)"
    | .opening :: rest => do
      let number := count + 1
      set (rest, number, number :: depth)
      let body ← choice d fuel none .empty
      let (rest, count, depth) ← get
      follow (.group number body) rest count depth
    | .one (.again n) :: rest =>
      if count < n then throw "Invalid back reference"
      else follow (.again n) rest count depth
    | .one r :: rest => follow r rest count depth
    | .times _ _ :: rest | .idle _ :: rest => do
      set (rest, count, depth)
      choice d fuel before sequence

/-- Reads an expression; a text that is none has a message. The number is that of its groups, and
the texts are the operators that have nothing to work on. -/
def read (d : Dialect) (cs : Text) : Except String (Regex × Nat × List String) := do
  let parts ← lexemes d (cs.length + 1) none cs
  let (r, state) ← (choice d (2 * parts.length + 2) none .empty).run (parts, 0, [])
  let idle := parts.filterMap fun
    | .idle operator => some operator
    | _ => none
  return (r, state.2.1, idle)

/-! ### Matching -/

/-- How far a match has come. -/
structure Match where
  /-- The text before, in reverse. -/
  before : Text
  rest : Text
  /-- How many characters have been matched. -/
  count : Nat
  groups : List (Nat × Text)

/-- How an expression is compared with a text. -/
structure Manner where
  /-- Whether upper and lower case are the same. -/
  ignoresCase : Bool := false
  /-- Whether places in lines are found behind and before line feeds too. -/
  multiline : Bool := false

/-- Whether a member of a set means a character. -/
def means (m : Member) (c : Char) : Bool :=
  match m with
  | .range low high => low ≤ c && c ≤ high
  | .named _ => m.contains c

/-- Whether a set contains a character. -/
def setContains (manner : Manner) (members : List Member) (c : Char) : Bool :=
  members.any fun m =>
    means m c || (manner.ignoresCase && (means m c.toLower || means m c.toUpper))

/-- Whether two characters count as the same. -/
def same (manner : Manner) (a b : Char) : Bool :=
  a == b || (manner.ignoresCase && a.toLower == b.toLower)

/-- Whether a text starts with another one. -/
def startsWith (manner : Manner) : Text → Text → Bool
  | [], _ => true
  | a :: as, b :: bs => same manner a b && startsWith manner as bs
  | _ :: _, [] => false

/-- Whether a place is here. -/
def isAt (manner : Manner) (s : Spot) (m : Match) : Bool :=
  let isWord (c : Option Char) : Bool := (c.map continuesName).getD false
  let left := isWord m.before.head?
  let right := isWord m.rest.head?
  match s with
  | .textStart => m.before.isEmpty
  | .textEnd => m.rest.isEmpty
  | .lineStart => m.before.isEmpty || (manner.multiline && m.before.head? == some '\n')
  | .lineEnd => m.rest.isEmpty || (manner.multiline && m.rest.head? == some '\n')
  | .wordStart => !left && right
  | .wordEnd => left && !right
  | .wordEdge => left != right
  | .insideOrOutside => left == right

/-- A match that has come one character further. -/
def Match.step (m : Match) : Match :=
  match m.rest with
  | c :: rest => { m with before := c :: m.before, rest, count := m.count + 1 }
  | [] => m

/-- A match that has come `n` characters further. -/
def Match.steps (m : Match) : Nat → Match
  | 0 => m
  | n + 1 => m.step.steps n

/-- Matches without those that agree with an earlier one. -/
def distinct : List Match → List Match
  | [] => []
  | m :: rest =>
    m :: (distinct rest).filter fun n => n.count != m.count || n.groups != m.groups

/-- Repeats a step as often as is allowed, first as often as possible. -/
def repeats (step : Match → List Match) (least : Nat) (most : Option Nat) :
    Nat → (done : Nat) → Match → List Match
  | 0, _, m => [m]
  | fuel + 1, done, m =>
    let further :=
      if isBelow done most then
        ((step m).filter fun n => m.count < n.count || done < least).flatMap
          (repeats step least most fuel (done + 1))
      else []
    if least ≤ done then further ++ [m] else further

/-- All ways in which an expression matches from here on, the preferred one first. -/
def ends (manner : Manner) : Regex → Match → List Match
  | .empty, m => [m]
  | .character c, m =>
    match m.rest with
    | d :: _ => if same manner c d then [m.step] else []
    | [] => []
  | .anyCharacter, m => if m.rest.isEmpty then [] else [m.step]
  | .oneOf complemented members, m =>
    match m.rest with
    | d :: _ => if setContains manner members d != complemented then [m.step] else []
    | [] => []
  | .spot s, m => if isAt manner s m then [m] else []
  | .group n body, m =>
    (ends manner body m).map fun after =>
      { after with groups :=
          (n, m.rest.take (after.count - m.count)) :: after.groups.filter (·.1 != n) }
  | .again n, m =>
    match m.groups.lookup n with
    | some cs => if startsWith manner cs m.rest then [m.steps cs.length] else []
    | none => []
  | .both first second, m => distinct ((ends manner first m).flatMap (ends manner second))
  | .either first second, m =>
    -- The longer way is preferred.
    (ends manner first m ++ ends manner second m).mergeSort fun a b => b.count ≤ a.count
  | .times body least most, m =>
    distinct (repeats (ends manner body) least most (m.rest.length + least + 1) 0 m)

/-- The first of the longest matches. -/
def longest : List Match → Option Match
  | [] => none
  | m :: rest =>
    match longest rest with
    | some n => if m.count < n.count then some n else some m
    | none => some m

/-- A match in a text. -/
structure Found where
  /-- The text before the match. -/
  front : Text
  /-- The match. -/
  text : Text
  /-- The text after it. -/
  after : Text
  groups : List (Nat × Text)

/-- The match that starts here. -/
def matchHere (manner : Manner) (r : Regex) (before rest : Text) : Option Found :=
  (longest (ends manner r ⟨before, rest, 0, []⟩)).map fun m =>
    ⟨before.reverse, rest.take m.count, rest.drop m.count, m.groups⟩

/-- The first match after a text that is given in reverse. -/
def searchFrom (manner : Manner) (r : Regex) (before : Text) : Text → Option Found
  | [] => matchHere manner r before []
  | c :: rest =>
    match matchHere manner r before (c :: rest) with
    | some found => some found
    | none => searchFrom manner r (c :: before) rest

/-- The first match in a text. -/
def search (manner : Manner) (r : Regex) (cs : Text) : Option Found := searchFrom manner r [] cs

end Regex
end IncrementalBuild.Shell
