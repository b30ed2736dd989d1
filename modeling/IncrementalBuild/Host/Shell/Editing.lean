import IncrementalBuild.Host.Files
import IncrementalBuild.Host.Shell.Edit
/-!
# Running editing scripts

The stream editor at work: it takes lines one by one into its pattern space, runs its script on
each, and prints what is left of it.

## Main definitions

* `Shell.Editing` — the state of the editor.
* `Shell.Substitution.apply` — a line with matches replaced.
* `Shell.Editing.run` — runs a script over lines.
-/

namespace IncrementalBuild.Shell

/-! ### Replacing -/

/-- How the letters that come next are changed: all of them, and the first one. -/
structure Casing where
  all : Option Recasing := none
  once : Option Recasing := none

namespace Casing

/-- A character in upper or lower case. -/
def recase (r : Recasing) (c : Char) : Char :=
  match r with
  | .upper | .upperOnce => c.toUpper
  | .lower | .lowerOnce => c.toLower
  | .stop => c

/-- A text in the case that is in force. -/
def apply (k : Casing) (cs : Text) : Text :=
  let whole : Text := match k.all with
    | some r => cs.map (recase r)
    | none => cs
  match k.once, whole with
  | some r, c :: rest => recase r c :: rest
  | _, _ => whole

/-- What is in force after a text was written. -/
def after (k : Casing) (cs : Text) : Casing := if cs.isEmpty then k else { k with once := none }

/-- What is in force after a change. -/
def change (k : Casing) (r : Recasing) : Casing :=
  match r with
  | .upper | .lower => { k with all := some r }
  | .upperOnce | .lowerOnce => { k with once := some r }
  | .stop => {}

end Casing

/-- What replaces a match. -/
def replacementFor (found : Regex.Found) : Casing → List ReplacementPart → Text
  | _, [] => []
  | k, part :: rest =>
    match part with
    | .recase r => replacementFor found (k.change r) rest
    | .text cs => k.apply cs ++ replacementFor found (k.after cs) rest
    | .group n =>
      let cs := if n = 0 then found.text else (found.groups.lookup n).getD []
      k.apply cs ++ replacementFor found (k.after cs) rest

namespace Substitution

/-- Replaces matches in the rest of a line. `before` is what comes before it, in reverse, `count`
the number of matches so far, and `adjacent` says whether one has just ended. The flag that is
returned says whether something was replaced. -/
def applyFrom (s : Substitution) (r : Regex) :
    Nat → (before rest : Text) → (count : Nat) → (adjacent : Bool) → Text × Bool
  | 0, _, rest, _, _ => (rest, false)
  | fuel + 1, before, rest, count, adjacent =>
    match Regex.searchFrom s.manner r before rest with
    | none => (rest, false)
    | some found =>
      let skipped := rest.take (rest.length - found.text.length - found.after.length)
      let reached := found.text.reverse ++ found.front.reverse
      let vacuous := found.text.isEmpty
      -- After a match nothing is found at once where there is nothing to match.
      let ignored := vacuous && adjacent && skipped.isEmpty
      let count := if ignored then count else count + 1
      let replaced := !ignored && s.start ≤ count
      let written := if replaced then replacementFor found {} s.replacement else found.text
      if replaced && !s.all then (skipped ++ written ++ found.after, true)
      else if vacuous then
        match found.after with
        | [] => (skipped ++ written, replaced)
        | c :: after =>
          let (more, also) := applyFrom s r fuel (c :: reached) after count false
          (skipped ++ written ++ c :: more, replaced || also)
      else
        let (more, also) := applyFrom s r fuel reached found.after count true
        (skipped ++ written ++ more, replaced || also)

/-- A line with matches replaced; none if there was nothing to replace. -/
def apply (s : Substitution) (r : Regex) (line : Text) : Option Text :=
  match s.applyFrom r (line.length + 2) [] line 0 false with
  | (edited, true) => some edited
  | (_, false) => none

end Substitution

/-! ### The state -/

/-- A line and whether a line end follows it. -/
abbrev InputLine := Text × Bool

/-- The state of the stream editor. -/
structure Editing where
  files : Files
  /-- The lines that are still to come. -/
  lines : List InputLine
  /-- The names of the files, each with the number of lines before it. -/
  names : List (Nat × Text) := [(0, ['-'])]
  /-- How long the lines of the plain form are. -/
  width : Nat := 70
  /-- Whether lines are printed only when the script says so. -/
  quiet : Bool := false
  /-- What ends a line. -/
  lineEnd : Char := '\n'
  number : Nat := 0
  space : Text := []
  /-- Whether a line end follows the line. -/
  ended : Bool := true
  held : Text := []
  /-- Whether a line end followed what is held. -/
  heldEnded : Bool := true
  /-- What was printed, the latest first. -/
  printed : List Text := []
  /-- Whether the last printed line still lacks its end. -/
  unfinished : Bool := false
  /-- What is printed after the line. -/
  later : List Text := []
  replaced : Bool := false
  /-- The commands whose ranges have begun, with the numbers of their last lines as far as they
  are known. -/
  ranges : List (Nat × Option Nat) := []
  /-- The commands whose ranges are over for good. -/
  closed : List Nat := []
  latest : Option Regex := none
  /-- Whether the latest expression was asked for before there was one. -/
  lost : Bool := false

/-- How the script goes on. -/
inductive EditStep
  /-- At a command. -/
  | go (place : Nat)
  /-- With the next line, after this one was printed or not. -/
  | finish (prints : Bool)
  /-- From the start with what is left of this line. -/
  | restart
  /-- Not at all; the line may still be printed. -/
  | quit (prints : Bool) (status : Nat)

namespace Editing

/-- The file name that stands for the standard output. -/
def outputName : Text := lit "/dev/stdout"

/-- Prints a text as it is. -/
def put (e : Editing) (cs : Text) : Editing :=
  let start : List Text := if e.unfinished then [[e.lineEnd]] else []
  { e with printed := cs :: start ++ e.printed, unfinished := false }

/-- Prints a line. -/
def printLine (e : Editing) (cs : Text) (ended : Bool) : Editing :=
  if ended then e.put (cs ++ [e.lineEnd]) else { e.put cs with unfinished := true }

/-- Writes a line to a file of the script. -/
def writeLine (e : Editing) (name cs : Text) (ended : Bool) : Editing :=
  if name == outputName then e.printLine cs ended
  else
    let more := Text.toBytes (if ended then cs ++ [e.lineEnd] else cs)
    match e.files.append (Text.toPath name) more with
    | .ok files => { e with files }
    | .error _ => e

/-- Prints what was put off until after the line. -/
def printLater (e : Editing) : Editing :=
  let all := e.later
  { all.foldl put e with later := [] }

/-- The next line as the pattern space, or behind it. -/
def readLine (e : Editing) (behind : Bool) : Option Editing :=
  match e.lines with
  | [] => none
  | (line, ended) :: lines =>
    let space := if behind then e.space ++ e.lineEnd :: line else line
    some { e with lines, number := e.number + 1, space, ended }

/-- Whether an expression matches, and the expression as the latest one. -/
def matching (e : Editing) (r : Option Regex) (manner : Regex.Manner) : Bool × Editing :=
  match r <|> e.latest with
  | some r => ((Regex.search manner r e.space).isSome, { e with latest := some r })
  | none => (false, { e with lost := true })

/-- Whether an address means the line. -/
def isAt (e : Editing) : Address → Bool × Editing
  | .line n => (e.number == n, e)
  | .step first every =>
    (if every = 0 then e.number == first
      else first ≤ e.number && (e.number - first) % every == 0, e)
  | .last => (e.lines.isEmpty, e)
  | .matching r manner => e.matching r manner

/-- Ends the range of a command. -/
def closeRange (e : Editing) (place : Nat) : Editing :=
  { e with ranges := e.ranges.filter (·.1 != place) }

/-- Whether a line is in a range that has begun; the range is closed where it ends. -/
def isWithin (e : Editing) (place : Nat) (known : Option Nat) (last : RangeEnd) : Bool × Editing :=
  match known, last with
  | some n, _ => (e.number ≤ n, if n ≤ e.number then e.closeRange place else e)
  | none, .address a =>
    let (found, e) := e.isAt a
    (true, if found then e.closeRange place else e)
  | none, _ => (true, e.closeRange place)

/-- Whether a command applies to the line. -/
def selects (e : Editing) (place : Nat) (s : Selection) : Bool × Editing :=
  let plain : Bool × Editing :=
    match s.first, s.last with
    | none, _ => (true, e)
    | some a, none => e.isAt a
    | some a, some last =>
      let fromStart := match a with
        | .line 0 => !e.closed.contains place
        | _ => false
      match e.ranges.lookup place with
      | some known => e.isWithin place known last
      | none =>
        if fromStart then
          ({ e with closed := place :: e.closed, ranges := (place, none) :: e.ranges }).isWithin
            place none last
        else
          let (found, e) := e.isAt a
          if !found then (false, e)
          else
            let begin (known : Option Nat) : Bool × Editing :=
              (true, { e with ranges := (place, known) :: e.ranges })
            match last with
            | .address (.line n) => if n ≤ e.number then (true, e) else begin (some n)
            | .address _ => begin none
            | .later n => if n = 0 then (true, e) else begin (some (e.number + n))
            | .multiple n =>
              if n = 0 then (true, e) else begin (some ((e.number / n + 1) * n))
  (plain.1 != s.negated, plain.2)

/-- The command behind the block that starts at a command. -/
def afterBlock (script : Editor) : Nat → (place depth : Nat) → Nat
  | 0, place, _ => place
  | fuel + 1, place, depth =>
    match script[place]? with
    | some (_, .opening) => afterBlock script fuel (place + 1) (depth + 1)
    | some (_, .closing) =>
      if depth ≤ 1 then place + 1 else afterBlock script fuel (place + 1) (depth - 1)
    | some _ => afterBlock script fuel (place + 1) depth
    | none => place

/-- Where a label stands. -/
def placeOf (script : Editor) (name : Text) : Nat :=
  if name.isEmpty then script.length
  else
    (script.findIdx? fun c =>
      match c.2 with
      | .label n => n == name
      | _ => false).getD script.length

/-- How the plain form of a line shows a character. -/
def plainly (c : Char) : Text :=
  match c with
  | '\\' => ['\\', '\\']
  | '\x07' => ['\\', 'a']
  | '\x08' => ['\\', 'b']
  | '\x0c' => ['\\', 'f']
  | '\n' => ['\\', 'n']
  | '\r' => ['\\', 'r']
  | '\t' => ['\\', 't']
  | '\x0b' => ['\\', 'v']
  | _ =>
    if isPrinted c || c == ' ' then [c]
    else
      let ds := Nat.toDigits 8 c.toNat
      '\\' :: (List.replicate (3 - ds.length) '0' ++ ds)

/-- The plain form of a text, in lines of at most so many characters; zero sets no bound. -/
def wrapped (width : Nat) : (used : Nat) → Text → Text
  | _, [] => ['$']
  | used, c :: rest =>
    let shown := plainly c
    if 0 < width && width < used + shown.length + 1 then
      '\\' :: '\n' :: shown ++ wrapped width shown.length rest
    else shown ++ wrapped width (used + shown.length) rest

/-- The name of the file that the line comes from. -/
def name (e : Editing) : Text :=
  ((e.names.filter fun n => n.1 < e.number).getLast?.map Prod.snd).getD ['-']

/-- The first line of the pattern space. -/
def firstLine (e : Editing) : Text := e.space.takeWhile (· != e.lineEnd)

/-- Ends the work because there is no further line; the line is printed. -/
def exhausted : EditStep := .quit true 0

/-- Runs one command on the line. -/
def step (script : Editor) (e : Editing) (place : Nat) (c : EditCommand) : Editing × EditStep :=
  let on (e : Editing) : Editing × EditStep := (e, .go (place + 1))
  match c with
  | .opening | .closing | .label _ | .nothing => on e
  | .jump name => (e, .go (placeOf script name))
  | .jumpIf replaced name =>
    let goes := e.replaced == replaced
    ({ e with replaced := false }, .go (if goes then placeOf script name else place + 1))
  | .substitute s =>
    match s.pattern <|> e.latest with
    | none => ({ e with lost := true }, .quit false 1)
    | some r =>
      let e := { e with latest := some r }
      match s.apply r e.space with
      | none => on e
      | some space =>
        let e := { e with space, replaced := true }
        let e := if s.print then e.printLine space e.ended else e
        on (match s.file with
          | some name => e.writeLine name space e.ended
          | none => e)
  | .map source target =>
    let table := source.zip target
    on { e with space := e.space.map fun c => (table.lookup c).getD c }
  | .insertBefore text => on (e.put text)
  | .appendAfter text => on { e with later := e.later ++ [text] }
  | .change text =>
    let ranged := match script[place]? with
      | some (s, _) => s.last.isSome && !s.negated
      | none => false
    let isOpen := ranged && (e.ranges.lookup place).isSome
    (if isOpen then e else e.put text, .finish false)
  | .delete => (e, .finish false)
  | .deleteFirst =>
    if e.space.contains e.lineEnd then
      ({ e with space := (e.space.dropWhile (· != e.lineEnd)).drop 1 }, .restart)
    else (e, .finish false)
  | .print => on (e.printLine e.space e.ended)
  | .printFirst => on (e.printLine e.firstLine (e.ended || e.space.contains e.lineEnd))
  | .printNumber => on (e.put (Text.ofNat e.number ++ ['\n']))
  | .printName => on (e.put (e.name ++ ['\n']))
  | .printPlainly width => on (e.put (wrapped (width.getD e.width) 0 e.space ++ ['\n']))
  | .next =>
    if e.lines.isEmpty then (e, exhausted)
    else
      let e := if e.quiet then e else e.printLine e.space e.ended
      on ((e.printLater.readLine false).getD e)
  | .nextToo =>
    if e.lines.isEmpty then (e, exhausted)
    else on ((e.printLater.readLine true).getD e)
  | .hold => on { e with held := e.space, heldEnded := e.ended }
  | .holdToo =>
    on { e with held := e.held ++ e.lineEnd :: e.space, heldEnded := e.heldEnded && e.ended }
  | .fetch => on { e with space := e.held, ended := e.heldEnded }
  | .fetchToo =>
    on { e with space := e.space ++ e.lineEnd :: e.held, ended := e.ended && e.heldEnded }
  | .exchange =>
    on { e with space := e.held, ended := e.heldEnded, held := e.space, heldEnded := e.ended }
  | .clear => on { e with space := [] }
  | .quit silent status => (e, .quit (!silent) status)
  | .readFile name =>
    match e.files.read (Text.toPath name) with
    | .ok contents => on { e with later := e.later ++ [Text.ofBytes contents] }
    | .error _ => on e
  | .writeFile firstOnly name =>
    on (if firstOnly then e.writeLine name e.firstLine true else e.writeLine name e.space e.ended)

/-- Runs a script on the line from a command on. -/
def commands (script : Editor) : Nat → Editing → Nat → Editing × EditStep
  | 0, e, _ => (e, .quit false 4)
  | fuel + 1, e, place =>
    match script[place]? with
    | none => (e, .finish true)
    | some (selection, c) =>
      let (selected, e) := e.selects place selection
      if e.lost then (e, .quit false 1)
      else if selected then
        match step script e place c with
        | (e, .go place) => commands script fuel e place
        | other => other
      else
        let next := match c with
          | .opening => afterBlock script (script.length + 1) place 0
          | _ => place + 1
        commands script fuel e next

/-- How many commands are run on one line at most. -/
def commandLimit : Nat := 100000

/-- Ends the work on a line. -/
def finishLine (e : Editing) (prints : Bool) : Editing :=
  let e := if prints && !e.quiet then e.printLine e.space e.ended else e
  e.printLater

/-- Runs a script over all lines; `fresh` says whether a line has to be read first. The number
that is returned is the exit status, if the script has chosen one. -/
def cycles (script : Editor) : Nat → (fresh : Bool) → Editing → Editing × Option Nat
  | 0, _, e => (e, none)
  | fuel + 1, fresh, e =>
    match (if fresh then e.readLine false else some e) with
    | none => (e, none)
    | some e =>
      match commands script commandLimit e 0 with
      | (e, .quit prints status) =>
        -- Without printing nothing else is printed either.
        (if prints then e.finishLine true else e, some status)
      | (e, .restart) => cycles script fuel false (e.finishLine false)
      | (e, .finish prints) =>
        cycles script fuel true { e.finishLine prints with replaced := false }
      | (e, .go _) => (e, none)

/-- The lines of a text. -/
def linesOf (lineEnd : Char) (cs : Text) : List InputLine :=
  let parts := Text.splitAt lineEnd cs
  let last := parts.getLast?.getD []
  parts.dropLast.map (fun line => (line, true)) ++ (if last.isEmpty then [] else [(last, false)])

/-- Runs a script over the lines of a state. -/
def run (script : Editor) (e : Editing) : Editing × Option Nat :=
  let size := e.lines.foldl (fun n line => n + line.1.length + 2) 2
  cycles script size true e

/-- What was printed. -/
def output (e : Editing) : Text := e.printed.reverse.flatten

end Editing
end IncrementalBuild.Shell
