import IncrementalBuild.Host.Shell.Regex
/-!
# Editing scripts

The scripts of the stream editor: commands that change, print and drop the lines of a text.

## Main definitions

* `Shell.Address`, `Shell.Selection` — the lines a command applies to.
* `Shell.Substitution` — how matches of an expression are replaced.
* `Shell.EditCommand` — what is done to a line.
* `Shell.Editor.read` — reads a script; `Shell.EditFault` says where it is wrong.
-/

namespace IncrementalBuild.Shell

/-- An address of lines. -/
inductive Address
  | line (n : Nat)
  /-- A line and every so many lines after it. -/
  | step (first every : Nat)
  | last
  /-- The lines that an expression matches; without one, the latest expression that was used. -/
  | matching (r : Option Regex) (manner : Regex.Manner)

/-- Whether an address names the place before the first line. -/
def Address.isZero : Address → Bool
  | .line 0 => true
  | _ => false

/-- Where a range of lines ends. -/
inductive RangeEnd
  | address (a : Address)
  /-- So many lines later. -/
  | later (n : Nat)
  /-- At a line whose number is a multiple. -/
  | multiple (n : Nat)

/-- Whether a range ends where an expression matches. -/
def RangeEnd.isMatching : RangeEnd → Bool
  | .address (.matching _ _) => true
  | _ => false

/-- The lines a command applies to. -/
structure Selection where
  first : Option Address := none
  last : Option RangeEnd := none
  negated : Bool := false

/-- How the case of the letters of a replacement changes from a place on. -/
inductive Recasing
  | upper
  | lower
  | upperOnce
  | lowerOnce
  | stop
  deriving DecidableEq, Repr

/-- A part of a replacement. -/
inductive ReplacementPart
  | text (cs : Text)
  /-- What a group holds; group zero is the whole match. -/
  | group (n : Nat)
  | recase (r : Recasing)
  deriving DecidableEq, Repr

/-- How matches of an expression are replaced. -/
structure Substitution where
  /-- The expression; without one, the latest that was used. -/
  pattern : Option Regex
  manner : Regex.Manner
  replacement : List ReplacementPart
  /-- The number of the first match that is replaced. -/
  start : Nat := 1
  /-- Whether the matches after it are replaced too. -/
  all : Bool := false
  print : Bool := false
  /-- The file that changed lines are written to. -/
  file : Option Text := none

/-- What a command of an editing script does. -/
inductive EditCommand
  | opening
  | closing
  | label (name : Text)
  /-- Goes on at a label, or at the end of the script. -/
  | jump (name : Text)
  /-- Jumps if something was replaced, or if nothing was. -/
  | jumpIf (replaced : Bool) (name : Text)
  | substitute (s : Substitution)
  | map (source target : Text)
  | insertBefore (text : Text)
  | appendAfter (text : Text)
  | change (text : Text)
  | delete
  | deleteFirst
  | print
  | printFirst
  | printNumber
  | printName
  /-- With the width of its lines, if it is given. -/
  | printPlainly (width : Option Nat)
  | next
  | nextToo
  | hold
  | holdToo
  | fetch
  | fetchToo
  | exchange
  | clear
  | quit (silent : Bool) (status : Nat)
  | readFile (name : Text)
  | writeFile (firstOnly : Bool) (name : Text)
  | nothing

/-- An editing script: commands with the lines they apply to. -/
abbrev Editor := List (Selection × EditCommand)

/-- A mistake in an editing script, with the number of characters read before it was noticed;
`none` if it concerns no place. -/
structure EditFault where
  place : Option Nat
  message : String

namespace Editor

/-! ### Reading -/

/-- An editing script while it is read. -/
structure Source where
  rest : Text
  /-- How many characters have been read. -/
  read : Nat := 0
  extended : Bool
  /-- The blocks that are open. -/
  depth : Nat := 0

/-- A step of reading. -/
abbrev Step := StateT Source (Except EditFault)

/-- Reports a mistake at this place. -/
def fail {α : Type} (message : String) : Step α := fun s => .error ⟨some s.read, message⟩

/-- The next character, which stays. -/
def peek : Step (Option Char) := return (← get).rest.head?

/-- The next character. -/
def take : Step (Option Char) :=
  modifyGet fun s =>
    match s.rest with
    | c :: rest => (some c, { s with rest, read := s.read + 1 })
    | [] => (none, s)

/-- Takes characters as long as they fit. -/
def takeWhile (p : Char → Bool) : Step Text :=
  modifyGet fun s =>
    let taken := s.rest.takeWhile p
    (taken, { s with rest := s.rest.drop taken.length, read := s.read + taken.length })

/-- Skips white space. -/
def skipBlank (acrossLines : Bool) : Step Unit := do
  let _ ← takeWhile fun c => isSpaceLike c && (acrossLines || c != '\n')

/-- The character that an escape with a code stands for: hexadecimal, octal or decimal digits. -/
def coded? (cs : Text) : Option (Char × Text) :=
  let digits (base count : Nat) (rest : Text) : Option (Char × Text) :=
    let ds := (rest.take count).takeWhile fun c => (digitIn? base c).isSome
    if ds.isEmpty then none
    else some (Char.ofNat (valueIn base ds % 256), rest.drop ds.length)
  match cs with
  | 'x' :: rest => digits 16 2 rest
  | 'o' :: rest => digits 8 3 rest
  | 'd' :: rest => digits 10 3 rest
  | 'c' :: c :: rest => some (Char.ofNat ((c.toUpper.toNat).xor 64 % 256), rest)
  | 'a' :: rest => some ('\x07', rest)
  | 'f' :: rest => some ('\x0c', rest)
  | 'r' :: rest => some ('\r', rest)
  | 't' :: rest => some ('\t', rest)
  | 'v' :: rest => some ('\x0b', rest)
  | _ => none

/-- An expression or list of characters with the escapes resolved that stand for one character.
Other escapes stay as they are. -/
def resolve : Nat → Text → Text
  | 0, cs => cs
  | fuel + 1, '\\' :: c :: rest =>
    match coded? (c :: rest) with
    | some (d, left) => d :: resolve fuel left
    | none => '\\' :: c :: resolve fuel rest
  | fuel + 1, c :: rest => c :: resolve fuel rest
  | _ + 1, [] => []

/-- Reports a mistake before the character that was read last. -/
def failBefore {α : Type} (message : String) : Step α :=
  fun s => .error ⟨some (s.read - 1), message⟩

/-- The text of a set behind its opening bracket. `first` says whether a closing bracket would be a
member, and `mark` is what a class of characters in the set ends with. `taken` is the text so far,
in reverse. -/
def setText (separator : Char) (unfinished : String) :
    Nat → (first : Bool) → (mark : Option Char) → (taken : Text) → Step Text
  | 0, _, _, _ => fail unfinished
  | fuel + 1, first, mark, taken => do
    let more := setText separator unfinished fuel
    match ← take with
    | none => fail unfinished
    | some '\n' => failBefore unfinished
    | some c => do
      let next ← peek
      match mark with
      | some m =>
        if c == m && next == some ']' then do
          let _ ← take
          more false none (']' :: c :: taken)
        else more false mark (c :: taken)
      | none =>
        if c == ']' && !first then return c :: taken
        else if c == '^' && first && taken.head? == some '[' then more true none (c :: taken)
        else if c == '[' && (next == some ':' || next == some '.' || next == some '=') then do
          let _ ← take
          more false next (next.toList ++ c :: taken)
        else if c == '\\' && next == some 'n' then do
          let _ ← take
          more false none ('\n' :: taken)
        else if c == '\\' && next == some separator then more false none taken
        else more false none (c :: taken)

/-- The text up to a separator. A separator after a backslash stands for itself; in an expression
`\n` is a line feed, and separators in sets are members of them. -/
def part (separator : Char) (isPattern : Bool) (unfinished : String) : Nat → Text → Step Text
  | 0, _ => fail unfinished
  | fuel + 1, taken => do
    match ← take with
    | none => fail unfinished
    | some c =>
      if c == separator then return taken.reverse
      else if c == '\\' then
        match ← take with
        | none => fail unfinished
        | some d =>
          if d == separator then part separator isPattern unfinished fuel (d :: taken)
          else if d == 'n' && isPattern then
            part separator isPattern unfinished fuel ('\n' :: taken)
          else part separator isPattern unfinished fuel (d :: '\\' :: taken)
      else if c == '[' && isPattern then do
        let taken ← setText separator unfinished fuel true none (c :: taken)
        part separator isPattern unfinished fuel taken
      else if c == '\n' && isPattern then failBefore unfinished
      else part separator isPattern unfinished fuel (c :: taken)

/-- Reads an expression; an empty text stands for the latest one that was used. -/
def expression (cs : Text) : Step (Option Regex × Nat) := do
  if cs.isEmpty then return (none, 9)
  let cs := resolve (cs.length + 1) cs
  match Regex.read { extended := (← get).extended } cs with
  | .ok (r, groups, _) => return (some r, groups)
  | .error message => fail message

/-- The flags behind an expression in an address. -/
def addressFlags : Nat → Regex.Manner → Step Regex.Manner
  | 0, manner => return manner
  | fuel + 1, manner => do
    match ← peek with
    | some 'I' => do
      let _ ← take
      addressFlags fuel { manner with ignoresCase := true }
    | some 'M' => do
      let _ ← take
      addressFlags fuel { manner with multiline := true }
    | _ => return manner

/-- The number at this place. -/
def number : Step Nat := return valueOf (← takeWhile Char.isDigit)

/-- An address, if there is one. -/
def address? : Step (Option Address) := do
  let matchTo (separator : Char) : Step (Option Address) := do
    let fuel := (← get).rest.length + 1
    let text ← part separator true "unterminated address regex" fuel []
    let (r, _) ← expression text
    return some (.matching r (← addressFlags fuel {}))
  match ← peek with
  | some '/' => do
    let _ ← take
    matchTo '/'
  | some '\\' => do
    let _ ← take
    match ← take with
    | some separator => matchTo separator
    | none => fail "unterminated address regex"
  | some '$' => do
    let _ ← take
    return some .last
  | some c =>
    if c.isDigit then
      let first ← number
      skipBlank false
      if (← peek) == some '~' then do
        let _ ← take
        skipBlank false
        return some (.step first (← number))
      else return some (.line first)
    else if c == '+' || c == '~' then do
      let _ ← take
      if (← number) = 0 then return none
      else fail "invalid usage of +N or ~N as first address"
    else return none
  | none => return none

/-- The end of a range. -/
def rangeEnd : Step RangeEnd := do
  skipBlank false
  match ← peek with
  | some '+' => do
    let _ ← take
    return .later (← number)
  | some '~' => do
    let _ ← take
    return .multiple (← number)
  | _ =>
    match ← address? with
    | some a => return .address a
    | none => do
      let _ ← take
      fail "unexpected \x60,'"

/-- The lines that the next command applies to. -/
def selection : Step Selection := do
  match ← address? with
  | none => return {}
  | some first => do
    skipBlank false
    if (← peek) == some ',' then do
      let _ ← take
      let last ← rangeEnd
      if first.isZero && !last.isMatching then do
        let _ ← take
        fail "invalid usage of line address 0"
      return { first := some first, last := some last }
    else do
      if first.isZero then do
        let _ ← take
        fail "invalid usage of line address 0"
      return { first := some first }

/-- The end of a command: a semicolon, a line end, a comment or a closing brace, which stays. -/
def finish : Step Unit := do
  skipBlank false
  match ← peek with
  | none | some '}' | some '#' => return
  | some ';' | some '\n' => do
    let _ ← take
  | some _ => do
    let _ ← take
    fail "extra characters after command"

/-- The text of a command up to the end of its line, where lines that end in a backslash go on. -/
def freeText : Nat → Text → Step Text
  | 0, taken => return taken.reverse
  | fuel + 1, taken => do
    match ← take with
    | none => return taken.reverse
    | some '\n' => return taken.reverse
    | some '\\' =>
      let rest := (← get).rest
      match coded? rest with
      | some (c, left) => do
        modify fun s => { s with rest := left, read := s.read + (rest.length - left.length) }
        freeText fuel (c :: taken)
      | none =>
        match ← take with
        | none => return taken.reverse
        | some 'n' => freeText fuel ('\n' :: taken)
        | some c => freeText fuel (c :: taken)
    | some c => freeText fuel (c :: taken)

/-- The text that a command adds to the lines. It may start on a line of its own. -/
def addedText : Step Text := do
  skipBlank false
  let missing : String := "expected \\ after \x60a', \x60c' or \x60i'"
  match ← peek with
  | none => fail missing
  | some '\\' => do
    let _ ← take
    let blank ← takeWhile fun c => isSpaceLike c && c != '\n'
    if (← peek) == some '\n' then do
      let _ ← take
      let text ← freeText ((← get).rest.length + 1) []
      return text ++ ['\n']
    else if (← peek).isNone then return []
    else
      let text ← freeText ((← get).rest.length + 1) []
      return blank ++ text ++ ['\n']
  | some _ => do
    let text ← freeText ((← get).rest.length + 1) []
    return text ++ ['\n']

/-- The name of a label. -/
def labelName : Step Text := do
  skipBlank false
  takeWhile fun c => !isSpaceLike c && c != ';' && c != '}'

/-- The name of a file, which is the rest of the line. -/
def fileName : Step Text := do
  skipBlank false
  let name ← takeWhile (· != '\n')
  if name.isEmpty then fail "missing filename in r/R/w/W commands" else return name

/-- The parts of a replacement; `text` is the text in progress, in reverse. -/
def replacement : Nat → (text : Text) → Text → List ReplacementPart
  | 0, _, _ => []
  | fuel + 1, text, cs =>
    let done (more : List ReplacementPart) : List ReplacementPart :=
      if text.isEmpty then more else .text text.reverse :: more
    match cs with
    | [] => done []
    | '&' :: rest => done (.group 0 :: replacement fuel [] rest)
    | '\\' :: c :: rest =>
      match coded? (c :: rest) with
      | some (d, left) => replacement fuel (d :: text) left
      | none =>
        let recase (r : Recasing) := done (.recase r :: replacement fuel [] rest)
        match c with
        | 'U' => recase .upper
        | 'L' => recase .lower
        | 'u' => recase .upperOnce
        | 'l' => recase .lowerOnce
        | 'E' => recase .stop
        | 'n' => replacement fuel ('\n' :: text) rest
        | _ =>
          if c.isDigit then done (.group (valueOf [c]) :: replacement fuel [] rest)
          else replacement fuel (c :: text) rest
    | c :: rest => replacement fuel (c :: text) rest

/-- The flags of a substitution. `counted` says whether a number was among them. -/
def substitutionFlags : Nat → (counted : Bool) → Substitution → Step Substitution
  | 0, _, s => return s
  | fuel + 1, counted, s => do
    match ← peek with
    | some c =>
      if c.isDigit then
        let n ← number
        if n = 0 then fail "number option to \x60s' command may not be zero"
        if counted then fail "multiple number options to \x60s' command"
        substitutionFlags fuel true { s with start := n }
      else
        match c with
        | 'g' => do
          let _ ← take
          if s.all then fail "multiple \x60g' options to \x60s' command"
          substitutionFlags fuel counted { s with all := true }
        | 'p' => do
          let _ ← take
          if s.print then fail "multiple \x60p' options to \x60s' command"
          substitutionFlags fuel counted { s with print := true }
        | 'i' | 'I' => do
          let _ ← take
          substitutionFlags fuel counted
            { s with manner := { s.manner with ignoresCase := true } }
        | 'm' | 'M' => do
          let _ ← take
          substitutionFlags fuel counted { s with manner := { s.manner with multiline := true } }
        | 'w' => do
          let _ ← take
          return { s with file := some (← fileName) }
        | '}' | '#' | ';' | '\n' => do
          finish
          return s
        | _ =>
          if isSpaceLike c then do
            let _ ← take
            substitutionFlags fuel counted s
          else do
            let _ ← take
            fail "unknown option to \x60s'"
    | none => return s

/-- A substitution after its letter. -/
def substitution : Step Substitution := do
  let unfinished : String := "unterminated \x60s' command"
  let fuel := (← get).rest.length + 1
  match ← take with
  | none => fail unfinished
  | some separator => do
    let pattern ← part separator true unfinished fuel []
    let text ← part separator false unfinished fuel []
    let parts := replacement (text.length + 1) [] text
    let s ← substitutionFlags fuel false
      { pattern := none, manner := {}, replacement := parts }
    let (r, groups) ← expression pattern
    let highest := parts.foldl (fun n p =>
      match p with
      | .group m => max n m
      | _ => n) 0
    if groups < highest then
      fail ("invalid reference \\" ++ toString highest ++ " on \x60s' command's RHS")
    return { s with pattern := r }

/-- The characters of a map, one by one. -/
def mapped (separator : Char) : Nat → Text → Step Text
  | 0, cs => return cs
  | _ + 1, [] => return []
  | fuel + 1, '\\' :: c :: rest =>
    if c == '\\' || c == separator then return c :: (← mapped separator fuel rest)
    else if c == 'n' then return '\n' :: (← mapped separator fuel rest)
    else
      match coded? (c :: rest) with
      | some (d, left) => return d :: (← mapped separator fuel left)
      | none => fail "\x60y' command strings have different lengths"
  | fuel + 1, c :: rest => return c :: (← mapped separator fuel rest)

/-- A map of characters after its letter. -/
def characterMap : Step EditCommand := do
  let unfinished : String := "unterminated \x60y' command"
  let fuel := (← get).rest.length + 1
  match ← take with
  | none => fail unfinished
  | some separator => do
    let source ← part separator false unfinished fuel []
    let target ← part separator false unfinished fuel []
    let source ← mapped separator fuel source
    let target ← mapped separator fuel target
    if source.length != target.length then
      fail "strings for \x60y' command are different lengths"
    finish
    return .map source target

/-- The number that may follow a command. -/
def number? : Step (Option Nat) := do
  skipBlank false
  let ds ← takeWhile Char.isDigit
  return if ds.isEmpty then none else some (valueOf ds)

/-- A command that has nothing after its letter. -/
def alone (c : EditCommand) : Step EditCommand := do
  finish
  return c

/-- A command, given its letter. -/
def command (letter : Char) (selected : Selection) : Step EditCommand := do
  match letter with
  | '\x7b' => do
    modify fun s => { s with depth := s.depth + 1 }
    return .opening
  | '\x7d' => do
    if (← get).depth = 0 then fail "unexpected \x60\x7d'"
    if selected.first.isSome then fail "\x7d doesn't want any addresses"
    modify fun s => { s with depth := s.depth - 1 }
    finish
    return .closing
  | ':' => do
    if selected.first.isSome then fail ": doesn't want any addresses"
    let name ← labelName
    if name.isEmpty then fail "\":\" lacks a label"
    return .label name
  | '#' => do
    if selected.first.isSome then fail "comments don't accept any addresses"
    let _ ← takeWhile (· != '\n')
    return .nothing
  | 'b' => do
    let name ← labelName
    finish
    return .jump name
  | 't' => do
    let name ← labelName
    finish
    return .jumpIf true name
  | 'T' => do
    let name ← labelName
    finish
    return .jumpIf false name
  | 's' => return .substitute (← substitution)
  | 'y' => characterMap
  | 'a' => return .appendAfter (← addedText)
  | 'i' => return .insertBefore (← addedText)
  | 'c' => return .change (← addedText)
  | 'r' => return .readFile (← fileName)
  | 'w' => return .writeFile false (← fileName)
  | 'W' => return .writeFile true (← fileName)
  | 'q' => do
    let n := (← number?).getD 0
    finish
    return .quit false n
  | 'Q' => do
    let n := (← number?).getD 0
    finish
    return .quit true n
  | 'l' => do
    let width ← number?
    finish
    return .printPlainly width
  | 'v' => do
    let _ ← labelName
    finish
    return .nothing
  | 'd' => alone .delete
  | 'D' => alone .deleteFirst
  | 'p' => alone .print
  | 'P' => alone .printFirst
  | '=' => alone .printNumber
  | 'F' => alone .printName
  | 'n' => alone .next
  | 'N' => alone .nextToo
  | 'h' => alone .hold
  | 'H' => alone .holdToo
  | 'g' => alone .fetch
  | 'G' => alone .fetchToo
  | 'x' => alone .exchange
  | 'z' => alone .clear
  | c => fail ("unknown command: \x60" ++ c.toString ++ "'")

/-- The commands of a script; those read before are given in reverse. -/
def commands : Nat → Editor → Step Editor
  | 0, before => return before.reverse
  | fuel + 1, before => do
    let _ ← takeWhile fun c => isSpaceLike c || c == ';'
    if (← peek).isNone then
      if (← get).depth = 0 then return before.reverse
      else throw ⟨some 0, "unmatched \x60\x7b'"⟩
    else do
      let selected ← selection
      skipBlank false
      let negated := (← peek) == some '!'
      if negated then do
        let _ ← takeWhile (· == '!')
        skipBlank false
      match ← take with
      | none => fail "missing command"
      | some letter => do
        let c ← command letter selected
        commands fuel (({ selected with negated }, c) :: before)

/-- The labels that commands jump to. -/
def targets (e : Editor) : List Text :=
  e.filterMap fun c =>
    match c.2 with
    | .jump name | .jumpIf _ name => some name
    | _ => none

/-- Whether a script has a label. -/
def hasLabel (e : Editor) (name : Text) : Bool :=
  e.any fun c =>
    match c.2 with
    | .label n => n == name
    | _ => false

/-- Reads a script. -/
def read (extended : Bool) (script : Text) : Except EditFault Editor :=
  match (commands (script.length + 1) []).run { rest := script, extended } with
  | .error e => .error e
  | .ok (e, _) =>
    match e.targets.find? fun name => !name.isEmpty && !e.hasLabel name with
    | some name =>
      .error ⟨none, "can't find label for jump to \x60" ++ Text.toString name ++ "'"⟩
    | none => .ok e

end Editor
end IncrementalBuild.Shell
