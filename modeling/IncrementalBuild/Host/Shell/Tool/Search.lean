import IncrementalBuild.Host.Shell.Regex
import IncrementalBuild.Host.Shell.Tool.Trees
/-!
# Searching

The tool that shows the lines that match an expression.

## Main definitions

* `Shell.Tool.Wanted` — what is searched for.
* `Shell.Tool.Wanted.spans` — the matches in a line.
* `Shell.Tool.SearchStyle` — how lines that were found are shown.
* `Shell.Tool.grep` — the tool, which returns its status.

A file that holds a zero byte counts as binary; of its lines nothing is shown.
-/

namespace IncrementalBuild.Shell.Tool

/-! ### Matches -/

/-- What is searched for: one of several expressions. -/
structure Wanted where
  expressions : List Regex
  manner : Regex.Manner := {}
  /-- Whether a match has to be made of whole words. -/
  wholeWords : Bool := false
  /-- Whether a match has to be a whole line. -/
  wholeLines : Bool := false
  /-- Whether the other lines are wanted. -/
  inverted : Bool := false

namespace Wanted

/-- Whether a character beside a match is part of a word. -/
def isWordCharacter (c : Option Char) : Bool := (c.map continuesName).getD false

/-- Whether a match counts. -/
def accepts (w : Wanted) (before : Text) (m : Regex.Match) : Bool :=
  if w.wholeLines then before.isEmpty && m.rest.isEmpty
  else if w.wholeWords then
    !isWordCharacter before.head? && !isWordCharacter m.rest.head?
  else true

/-- The length of the longest match that starts here. -/
def here (w : Wanted) (before rest : Text) : Option Nat :=
  let all := w.expressions.flatMap fun r => Regex.ends w.manner r ⟨before, rest, 0, []⟩
  (Regex.longest (all.filter (w.accepts before))).map Regex.Match.count

/-- Whether there is a match in the rest of a line; `before` is what comes before it, in
reverse. -/
def occurs (w : Wanted) (before : Text) : Text → Bool
  | [] => (w.here before []).isSome
  | c :: rest => (w.here before (c :: rest)).isSome || occurs w (c :: before) rest

/-- Whether a line is wanted. -/
def selects (w : Wanted) (line : Text) : Bool := w.occurs [] line != w.inverted

/-- The matches in a line that are not empty, each with its place. `skip` is the number of
characters that belong to the last match. -/
def spansFrom (w : Wanted) (place : Nat) (before : Text) : (skip : Nat) → Text → List (Nat × Text)
  | _, [] => []
  | skip + 1, c :: rest => spansFrom w (place + 1) (c :: before) skip rest
  | 0, c :: rest =>
    match w.here before (c :: rest) with
    | some (n + 1) =>
      (place, (c :: rest).take (n + 1)) :: spansFrom w (place + 1) (c :: before) n rest
    | _ => spansFrom w (place + 1) (c :: before) 0 rest

/-- The matches in a line that are not empty, each with its place. -/
def spans (w : Wanted) (line : Text) : List (Nat × Text) := w.spansFrom 0 [] 0 line

end Wanted

/-! ### Lines -/

/-- A line of a file. -/
structure FileLine where
  number : Nat
  /-- How many bytes come before it. -/
  offset : Nat
  text : Text

/-- The lines of a file from a number and an offset on. -/
def FileLine.all : (number offset : Nat) → List Text → List FileLine
  | _, _, [] => []
  | number, offset, text :: rest =>
    ⟨number, offset, text⟩ :: all (number + 1) (offset + text.length + 1) rest

/-- How lines that were found are shown. -/
structure SearchStyle where
  numbered : Bool := false
  withOffsets : Bool := false
  /-- Whether only the matches are shown. -/
  onlyMatches : Bool := false
  /-- What ends a line. -/
  lineEnd : Char := '\n'
  /-- How many lines are shown before a line that was found. -/
  before : Option Nat := none
  /-- How many lines are shown after it. -/
  after : Option Nat := none

namespace SearchStyle

/-- Marks the lines that are wanted, up to so many of them. After the last one the lines up to the
next wanted one are kept as far as they may be shown. -/
def mark (s : SearchStyle) (w : Wanted) : (left : Option Nat) → List FileLine →
    List (FileLine × Bool)
  | some 0, lines =>
    ((lines.take (s.after.getD 0)).takeWhile fun l => !w.selects l.text).map fun l => (l, false)
  | _, [] => []
  | left, l :: rest =>
    if w.selects l.text then (l, true) :: mark s w (left.map (· - 1)) rest
    else (l, false) :: mark s w left rest

/-- Which places are marked or come at most so far behind a marked one. -/
def near (reach : Nat) : (left : Nat) → List Bool → List Bool
  | _, [] => []
  | _, true :: rest => true :: near reach reach rest
  | left, false :: rest => decide (0 < left) :: near reach (left - 1) rest

/-- What is written for a line. -/
def line (s : SearchStyle) (w : Wanted) (title : Option Text) (l : FileLine) (found : Bool) :
    Text :=
  let mark := if found then ':' else '-'
  let front (place : Nat) : Text :=
    (title.map fun t => t ++ [mark]).getD []
      ++ (if s.numbered then Text.ofNat l.number ++ [mark] else [])
      ++ (if s.withOffsets then Text.ofNat (l.offset + place) ++ [mark] else [])
  if s.onlyMatches then
    if found && !w.inverted then
      (w.spans l.text).flatMap fun m => front m.1 ++ m.2 ++ [s.lineEnd]
    else []
  else front 0 ++ l.text ++ [s.lineEnd]

/-- What is written for lines, of which those that were found are marked. `started` says whether
something was shown before, and `adjacent` whether it was the line before these. -/
def lines (s : SearchStyle) (w : Wanted) (title : Option Text) :
    (started adjacent : Bool) → List ((FileLine × Bool) × Bool) → Text
  | _, _, [] => []
  | started, adjacent, ((l, found), shown) :: rest =>
    if shown then
      let parted := started && !adjacent && (s.before.isSome || s.after.isSome)
      (if parted then lit "--\n" else []) ++ s.line w title l found
        ++ lines s w title true true rest
    else lines s w title started false rest

/-- What is written for a file whose wanted lines are marked. -/
def whole (s : SearchStyle) (w : Wanted) (title : Option Text) (started : Bool)
    (marked : List (FileLine × Bool)) : Text :=
  let flags := marked.map Prod.snd
  let behind := near (s.after.getD 0) 0 flags
  let ahead := (near (s.before.getD 0) 0 flags.reverse).reverse
  s.lines w title started false (marked.zip (behind.zipWith (· || ·) ahead))

end SearchStyle

/-! ### The tool -/

/-- Reports a wrong use of the tool and ends it. -/
def misusedSearch {α : Type} (message : Option Text) : Run α := do
  if let some m := message then complain m
  Run.complain (lit "Usage: grep [OPTION]... PATTERNS [FILE]...")
  Run.complain (lit "Try 'grep --help' for more information.")
  Run.stop 2 .exit

/-- The options of the tool. Long names without a letter have capital or other stand-ins. -/
def searchSwitches : List Switch :=
  [⟨'E', "extended-regexp", .nothing⟩, ⟨'F', "fixed-strings", .nothing⟩,
   ⟨'G', "basic-regexp", .nothing⟩, ⟨'P', "perl-regexp", .nothing⟩, ⟨'e', "regexp", .argument⟩,
   ⟨'f', "file", .argument⟩, ⟨'i', "ignore-case", .nothing⟩, ⟨'y', "", .nothing⟩,
   ⟨'j', "no-ignore-case", .nothing⟩, ⟨'w', "word-regexp", .nothing⟩,
   ⟨'x', "line-regexp", .nothing⟩, ⟨'z', "null-data", .nothing⟩, ⟨'s', "no-messages", .nothing⟩,
   ⟨'v', "invert-match", .nothing⟩, ⟨'m', "max-count", .argument⟩,
   ⟨'b', "byte-offset", .nothing⟩, ⟨'n', "line-number", .nothing⟩,
   ⟨'u', "line-buffered", .nothing⟩, ⟨'H', "with-filename", .nothing⟩,
   ⟨'h', "no-filename", .nothing⟩, ⟨'o', "only-matching", .nothing⟩, ⟨'q', "quiet", .nothing⟩,
   ⟨'q', "silent", .nothing⟩, ⟨'a', "text", .nothing⟩, ⟨'r', "recursive", .nothing⟩,
   ⟨'R', "dereference-recursive", .nothing⟩, ⟨'L', "files-without-match", .nothing⟩,
   ⟨'l', "files-with-matches", .nothing⟩, ⟨'C', "context", .argument⟩,
   ⟨'K', "color", .attached⟩, ⟨'K', "colour", .attached⟩, ⟨'c', "count", .nothing⟩,
   ⟨'B', "before-context", .argument⟩, ⟨'A', "after-context", .argument⟩]
    ++ "0123456789".toList.map fun d => ⟨d, "", .nothing⟩

/-- The lines of a text, without what ends them. -/
def plainLines (lineEnd : Char) (cs : Text) : List Text :=
  let parts := Text.splitAt lineEnd cs
  if parts.getLast? == some [] then parts.dropLast else parts

/-- The patterns that options or the first operand give, with the operands that are left. -/
def searchPatterns (given : Given) (operands : List Text) : Run (List Text × List Text) := do
  let mut all : List Text := []
  for (letter, value) in given do
    if letter == 'e' then all := all ++ Text.splitAt '\n' value
    else if letter == 'f' then
      match ← contents value with
      | .ok cs => all := all ++ plainLines '\n' cs
      | .error e => stop 2 (value ++ lit ": " ++ cause e)
  if given.has 'e' || given.has 'f' then return (all, operands)
  else
    match operands with
    | [] => misusedSearch none
    | pattern :: rest => return (Text.splitAt '\n' pattern, rest)

/-- An expression for a text that stands for itself. -/
def literally (cs : Text) : Regex := cs.foldr (fun c r => .both (.character c) r) .empty

/-- The expression of a pattern. -/
def searchExpression (kind : Option Char) (pattern : Text) : Run Regex := do
  if kind == some 'F' then return literally pattern
  match Regex.read { extended := kind == some 'E' || kind == some 'P', lenient := true } pattern with
  | .ok (r, _, idle) => do
    for operator in idle do
      complain (lit "warning: " ++ lit operator ++ lit " at start of expression")
    return r
  | .error message => stop 2 (lit message)

/-- The number of lines that an option asks for. -/
def contextLength (cs : Text) : Run Nat := do
  if isNatural cs then return valueOf cs
  else stop 2 (cs ++ lit ": invalid context length argument")

/-- How many lines are wanted at most. -/
def searchLimit (given : Given) : Run (Option Nat) := do
  match given.value? 'm' with
  | none => return none
  | some cs =>
    match integer? false cs with
    | some n => return if n < 0 then none else some n.toNat
    | none => stop 2 (lit "invalid max count")

/-- The files that are searched, with the names they are shown by. A directory stands for the
files in it where that is asked for. -/
def searchedFiles (deep : Bool) (names : List Text) : Run (List Text) := do
  if !deep then return if names.isEmpty then [['-']] else names
  let files := (← get).files
  let below (shown : Text) (place : Location) : List Text :=
    ((everything files (files.entries.length + 1) 0 shown place).filter fun e =>
      match files.at? e.2.2 with
      | some (.file _ _ _) => true
      | _ => false).map fun e => e.2.1
  let here := lit "./"
  if names.isEmpty then
    match files.locate ⟨"."⟩ with
    | .ok place => return (below (lit ".") place).map fun name => name.drop here.length
    | .error _ => return []
  return names.flatMap fun name =>
    match files.locate (Text.toPath name) with
    | .ok place => if files.at? place == some .directory then below name place else [name]
    | .error _ => [name]

/-- Searches the lines of files for expressions. -/
def grep (kind : Option Char) (args : List Text) : Run Nat := do
  if kind.isSome then modify fun st => { st with zero := lit "grep" }
  let (given, operands) ← match readFrom false searchSwitches (args.length + 1) args with
    | .ok r => pure r
    | .error message => misusedSearch (some message)
  let kinds := (kind.toList ++ (given.map Prod.fst).filter ['E', 'F', 'G', 'P'].contains).eraseDups
  if 1 < kinds.length then stop 2 (lit "conflicting matchers specified")
  let contextOf (letters : List Char) : Run (Option Nat) := do
    match (given.reverse.find? fun o => letters.contains o.1).map Prod.snd with
    | some cs => return some (← contextLength cs)
    | none =>
      let digits := (given.map Prod.fst).filter Char.isDigit
      return if digits.isEmpty then none else some (valueOf digits)
  let style : SearchStyle := {
    numbered := given.has 'n', withOffsets := given.has 'b', onlyMatches := given.has 'o'
    lineEnd := if given.has 'z' then '\x00' else '\n'
    before := ← contextOf ['B', 'C']
    after := ← contextOf ['A', 'C'] }
  let limit ← searchLimit given
  let (patterns, names) ← searchPatterns given operands
  let wanted : Wanted := {
    expressions := ← patterns.mapM (searchExpression kinds.head?)
    manner := { ignoresCase := given.last? ['i', 'y', 'j'] == some 'i' || given.has 'y' }
    wholeWords := given.has 'w', wholeLines := given.has 'x', inverted := given.has 'v' }
  if limit == some 0 then return 1
  let deep := given.has 'r' || given.has 'R'
  let files ← searchedFiles deep names
  let titled := match given.last? ['h', 'H'] with
    | some letter => letter == 'H'
    | none => 1 < names.length || deep
  let listing := given.last? ['l', 'L']
  let mut failed := false
  let mut matched := false
  let mut started := false
  for name in files do
    match ← contents name with
    | .error e =>
      if !given.has 's' then complain (name ++ lit ": " ++ cause e)
      failed := true
    | .ok cs =>
      let shownName := if name == ['-'] then lit "(standard input)" else name
      let title := if titled then some shownName else none
      let marked := style.mark wanted limit (FileLine.all 1 0 (plainLines style.lineEnd cs))
      let count := (marked.filter Prod.snd).length
      let listed := if listing == some 'L' then count == 0 else 0 < count
      matched := matched || listed
      if given.has 'q' then
        if matched then return 0
      else if listing.isSome then
        if listed then Run.print (shownName ++ ['\n'])
      else if given.has 'c' then
        Run.print ((title.map fun t => t ++ [':']).getD [] ++ Text.ofNat count ++ ['\n'])
      else if 0 < count then
        if cs.contains '\x00' && !given.has 'a' && !given.has 'z' then
          complain (shownName ++ lit ": binary file matches")
        else
          Run.print (style.whole wanted title started marked)
          started := true
  return if failed then 2 else if matched then 0 else 1

end IncrementalBuild.Shell.Tool
