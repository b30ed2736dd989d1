import IncrementalBuild.Host.Shell.Pattern
import IncrementalBuild.Host.Shell.Printing
import IncrementalBuild.Host.Shell.Tool.Options
/-!
# Tools for lines

The tools that copy, count, cut, order and join lines.

## Main definitions

* `Shell.Tool.cat`, `Shell.Tool.head`, `Shell.Tool.tail`, `Shell.Tool.wc`, `Shell.Tool.tac`,
  `Shell.Tool.rev`, `Shell.Tool.nl`, `Shell.Tool.paste`, `Shell.Tool.tee`, `Shell.Tool.fold`.
* `Shell.Tool.cut`, `Shell.Tool.tr`, `Shell.Tool.sort`, `Shell.Tool.uniq`.

Each returns its status.
-/

namespace IncrementalBuild.Shell.Tool

/-- A line without the line feed at its end. -/
def withoutEnd (line : Text) : Text := if line.getLast? == some '\n' then line.dropLast else line

/-- A number in a field of some width. -/
def padded (width n : Nat) : Text :=
  let ds := Text.ofNat n
  List.replicate (width - ds.length) ' ' ++ ds

/-! ### Copying -/

/-- How `cat` shows what it copies. -/
structure CopyStyle where
  numbers : Bool
  numbersFilled : Bool
  squeezes : Bool
  marksEnds : Bool
  marksTabs : Bool
  visible : Bool

/-- A character as it is shown. -/
def CopyStyle.show (s : CopyStyle) (c : Char) : Text :=
  let plain (n : Nat) : Text :=
    if n < 32 then ['^', Char.ofNat (n + 64)] else if n == 127 then ['^', '?'] else [Char.ofNat n]
  if c == '\t' then (if s.marksTabs then ['^', 'I'] else [c])
  else if !s.visible then [c]
  else if c.toNat < 128 then plain c.toNat
  else 'M' :: '-' :: plain (c.toNat - 128)

/-- Lines as they are shown. `number` is the number of the next line, and `blank` says whether the
last line was empty. -/
def CopyStyle.lines (s : CopyStyle) : (number : Nat) → (blank : Bool) → List Text → Text
  | _, _, [] => []
  | number, blank, line :: rest =>
    let body := withoutEnd line
    let isBlank := line == ['\n']
    if s.squeezes && blank && isBlank then s.lines number true rest
    else
      let counted := if s.numbersFilled then !isBlank else s.numbers
      let front := if counted then padded 6 number ++ ['\t'] else []
      let ending : Text := if body.length == line.length then []
        else if s.marksEnds then ['$', '\n'] else ['\n']
      front ++ body.flatMap s.show ++ ending
        ++ s.lines (if counted then number + 1 else number) isBlank rest

/-- Copies files to the standard output. -/
def cat (args : List Text) : Run Nat := do
  let (given, names) ← options 1
    [⟨'A', "show-all", .nothing⟩, ⟨'b', "number-nonblank", .nothing⟩, ⟨'e', "", .nothing⟩,
     ⟨'E', "show-ends", .nothing⟩, ⟨'n', "number", .nothing⟩, ⟨'s', "squeeze-blank", .nothing⟩,
     ⟨'t', "", .nothing⟩, ⟨'T', "show-tabs", .nothing⟩, ⟨'u', "", .nothing⟩,
     ⟨'v', "show-nonprinting", .nothing⟩] args
  let (all, status) ← gather tellPlainly names
  let cs := all.flatMap Prod.snd
  let any (letters : List Char) : Bool := letters.any given.has
  let style : CopyStyle := {
    numbers := any ['n'], numbersFilled := any ['b'], squeezes := any ['s']
    marksEnds := any ['A', 'e', 'E'], marksTabs := any ['A', 't', 'T']
    visible := any ['A', 'e', 't', 'v'] }
  Run.print (if given.isEmpty then cs else style.lines 1 false (Text.lines cs))
  return status

/-- Copies the standard input to the standard output and to files. -/
def tee (args : List Text) : Run Nat := do
  let (given, names) ← options 1
    [⟨'a', "append", .nothing⟩, ⟨'i', "ignore-interrupts", .nothing⟩, ⟨'p', "", .nothing⟩] args
  let cs ← modifyGet fun st => st.readAll 0
  let how : State.Opening := if given.has 'a' then .atEnd else .over
  let mut status := 0
  Run.print cs
  for name in names do
    -- The file takes a descriptor that nothing else uses.
    match (← get).openOutput 99 how name with
    | .ok st => set ((st.write 99 cs).close 99)
    | .error e =>
      tellPlainly name e
      status := 1
  return status

/-! ### Ends of files -/

/-- Which part of a file is shown. -/
structure Extent where
  /-- Whether lines are counted, and not bytes. -/
  ofLines : Bool := true
  /-- The sign before the number, if there was one. -/
  sign : Option Char := none
  count : Nat := 10

/-- The part of a file that an argument asks for. -/
def Extent.read (ofLines : Bool) (cs : Text) : Run Extent := do
  let (sign, rest) : Option Char × Text := match cs with
    | '-' :: rest => (some '-', rest)
    | '+' :: rest => (some '+', rest)
    | _ => (none, cs)
  match amount? rest with
  | some count => return { ofLines, sign, count }
  | none =>
    stop 1 (lit (if ofLines then "invalid number of lines: " else "invalid number of bytes: ")
      ++ inQuotes cs)

/-- Parts from the front: so many of them, or all but so many. -/
def Extent.front {α : Type} (x : Extent) (parts : List α) : List α :=
  if x.sign == some '-' then parts.take (parts.length - x.count) else parts.take x.count

/-- Parts from the end: so many of them, or all from one on. -/
def Extent.back {α : Type} (x : Extent) (parts : List α) : List α :=
  if x.sign == some '+' then parts.drop (x.count - 1) else parts.drop (parts.length - x.count)

/-- Shows a part of each of several files, with their names where there are several. -/
def parts (fromFront : Bool) (args : List Text) : Run Nat := do
  let first := args.headD []
  -- An old notation has the number itself as an option.
  let (old, args) : Option Text × List Text := match first with
    | '-' :: c :: cs =>
      if c.isDigit && (c :: cs).all Char.isDigit then (some (c :: cs), args.tail) else (none, args)
    | '+' :: c :: cs =>
      if !fromFront && c.isDigit && (c :: cs).all Char.isDigit then (some first, args.tail)
      else (none, args)
    | _ => (none, args)
  let (given, names) ← options 1
    [⟨'n', "lines", .argument⟩, ⟨'c', "bytes", .argument⟩, ⟨'q', "quiet", .nothing⟩,
     ⟨'q', "silent", .nothing⟩, ⟨'v', "verbose", .nothing⟩, ⟨'f', "follow", .attached⟩] args
  let asked := given.filter fun o => o.1 == 'n' || o.1 == 'c'
  let extent ← match asked.getLast? with
    | some (letter, cs) => Extent.read (letter == 'n') cs
    | none =>
      match old with
      | some cs => Extent.read true cs
      | none => pure {}
  if let some cs := old then
    if !fromFront && 1 < names.length then
      stop 1 (lit "option used in invalid context -- " ++ cs.take 1)
  let names := if names.isEmpty then [['-']] else names
  let shows := match given.last? ['q', 'v'] with
    | some 'q' => false
    | some _ => true
    | none => 1 < names.length
  let mut status := 0
  let mut started := false
  for name in names do
    match ← contents name with
    | .error .isADirectory =>
      complain (lit "error reading " ++ inQuotes name ++ lit ": Is a directory")
      status := 1
    | .error e =>
      complain (lit "cannot open " ++ inQuotes name ++ lit " for reading: " ++ cause e)
      status := 1
    | .ok cs =>
      if shows then
        let title := if name == ['-'] then lit "standard input" else name
        Run.print (lit (if started then "\n==> " else "==> ") ++ title ++ lit " <==\n")
      started := true
      let shown := if extent.ofLines then
          let lines := Text.lines cs
          (if fromFront then extent.front lines else extent.back lines).flatten
        else if fromFront then extent.front cs
        else extent.back cs
      Run.print shown
      -- What was not shown is left for others, where one can go back in the file.
      if fromFront && name == ['-'] && extent.sign.isNone then
        modify fun st =>
          match st.target? 0 with
          | some (.source _ true) => st.unread 0 (cs.drop shown.length)
          | _ => st
  return status

/-- Shows the front of files. -/
def head (args : List Text) : Run Nat := parts true args

/-- Shows the end of files. -/
def tail (args : List Text) : Run Nat := parts false args

/-! ### Counting -/

/-- What is counted in a text. -/
structure Counts where
  lines : Nat := 0
  words : Nat := 0
  bytes : Nat := 0
  longest : Nat := 0

/-- The counts of a text. -/
def Counts.ofText (cs : Text) : Counts where
  lines := cs.count '\n'
  words := ((Blank.pieces isSpaceLike cs).filter (!·.isEmpty)).length
  bytes := cs.length
  longest := (Text.splitAt '\n' cs).foldl (fun n line => max n line.length) 0

/-- The counts of two texts together. -/
def Counts.plus (a b : Counts) : Counts :=
  ⟨a.lines + b.lines, a.words + b.words, a.bytes + b.bytes, max a.longest b.longest⟩

/-- Counts lines, words and bytes. -/
def wc (args : List Text) : Run Nat := do
  let (given, names) ← options 1
    [⟨'l', "lines", .nothing⟩, ⟨'w', "words", .nothing⟩, ⟨'m', "chars", .nothing⟩,
     ⟨'c', "bytes", .nothing⟩, ⟨'L', "max-line-length", .nothing⟩] args
  let wanted := ['l', 'w', 'm', 'c', 'L'].filter given.has
  let wanted := if wanted.isEmpty then ['l', 'w', 'c'] else wanted
  let row (width : Nat) (k : Counts) (name : Option Text) : Text :=
    let numbers := wanted.map fun c => padded width (match c with
      | 'l' => k.lines
      | 'w' => k.words
      | 'L' => k.longest
      | _ => k.bytes)
    Text.joinWith [' '] numbers ++ (name.map fun n => ' ' :: n).getD [] ++ ['\n']
  let fromFile := match (← get).target? 0 with
    | some (.source _ fromFile) => fromFile
    | some (.file _ _) => true
    | _ => false
  let sources := if names.isEmpty then [['-']] else names
  let all ← sources.mapM fun name => do return (name, ← contents name)
  let single := wanted.length == 1 && sources.length == 1
  -- Columns are as wide as the size of all files needs.
  let sized := all.all fun f => match f.2 with
    | .ok _ => f.1 != ['-'] || fromFile
    | .error .isADirectory => false
    | .error _ => true
  let size := all.foldl (fun n f => n + (f.2.toOption.getD []).length) 0
  let width := if single then 1 else if sized then (Text.ofNat size).length else
    max 7 (Text.ofNat size).length
  let mut total : Counts := {}
  let mut status := 0
  for (name, cs) in all do
    match cs with
    | .ok cs =>
      let k := Counts.ofText cs
      total := total.plus k
      Run.print (row width k (if names.isEmpty then none else some name))
    | .error e =>
      tellPlainly name e
      status := 1
      if e == .isADirectory then Run.print (row width {} (some name))
  if 1 < names.length then Run.print (row width total (some (lit "total")))
  return status

/-! ### Rearranging -/

/-- Copies the lines of files from the last to the first. -/
def tac (args : List Text) : Run Nat := do
  let (_, names) ← options 1 [] args
  let tell (name : Text) (e : FileError) : Run Unit :=
    complain (lit "failed to open " ++ inQuotes name ++ lit " for reading: " ++ cause e)
  let (all, status) ← gather tell names
  Run.print (all.flatMap fun f => (Text.lines f.2).reverse.flatten)
  return status

/-- Copies lines with their characters from the last to the first. -/
def rev (args : List Text) : Run Nat := do
  let (_, names) ← options 1 [] args
  let tell (name : Text) (e : FileError) : Run Unit :=
    complain (lit "cannot open " ++ name ++ lit ": " ++ cause e)
  let (all, status) ← gather tell names
  Run.print (all.flatMap fun f => (Text.lines f.2).flatMap fun line =>
    let body := withoutEnd line
    body.reverse ++ line.drop body.length)
  return status

/-- Numbers lines. -/
def numbered (every : Bool) (width : Nat) (between : Text) : Nat → List Text → Text
  | _, [] => []
  | n, line :: rest =>
    let body := withoutEnd line
    if every || !body.isEmpty then
      padded width n ++ between ++ body ++ '\n' :: numbered every width between (n + 1) rest
    else
      List.replicate (width + between.length) ' ' ++ '\n' :: numbered every width between n rest

/-- Copies lines with numbers before them. -/
def nl (args : List Text) : Run Nat := do
  let (given, names) ← options 1
    [⟨'b', "body-numbering", .argument⟩, ⟨'w', "number-width", .argument⟩,
     ⟨'s', "number-separator", .argument⟩, ⟨'v', "starting-line-number", .argument⟩] args
  let (all, status) ← gather tellPlainly names
  let number (letter : Char) (usual : Nat) : Nat :=
    ((given.value? letter).map fun cs => valueOf (cs.takeWhile Char.isDigit)).getD usual
  Run.print (numbered (given.value? 'b' == some ['a']) (number 'w' 6)
    ((given.value? 's').getD ['\t']) (number 'v' 1) (Text.lines (all.flatMap Prod.snd)))
  return status

/-- The first entries of several lists and what follows them, as long as one has any. -/
def columns : Nat → List (List Text) → List (List Text)
  | 0, _ => []
  | fuel + 1, lists =>
    if lists.all List.isEmpty then []
    else lists.map (fun l => l.headD []) :: columns fuel (lists.map List.tail)

/-- Joins texts with separators that are used in turn. -/
def joinInTurn (separators : List Text) : Nat → List Text → Text
  | _, [] => []
  | _, [only] => only
  | n, a :: rest =>
    a ++ (separators[n % separators.length]?.getD []) ++ joinInTurn separators (n + 1) rest

/-- The separators that an argument lists. -/
def separatorList : Text → List Text
  | '\\' :: c :: rest =>
    (match c with
      | 'n' => ['\n']
      | 't' => ['\t']
      | '0' => []
      | _ => [c]) :: separatorList rest
  | c :: rest => [c] :: separatorList rest
  | [] => []

/-- Every so manieth line, from the first one on. -/
def everyNth (step : Nat) : (skip : Nat) → List Text → List Text
  | _, [] => []
  | 0, line :: rest => line :: everyNth step (step - 1) rest
  | skip + 1, _ :: rest => everyNth step skip rest

/-- Columns in which those that are marked share lines: each takes the next one in turn. -/
def dealt (lines : List Text) (step : Nat) : (place : Nat) → List (List Text × Bool) →
    List (List Text)
  | _, [] => []
  | place, (column, marked) :: rest =>
    if marked then everyNth step place lines :: dealt lines step (place + 1) rest
    else column :: dealt lines step place rest

/-- Joins the lines of files side by side, or those of each file. -/
def paste (args : List Text) : Run Nat := do
  let (given, names) ← options 1
    [⟨'d', "delimiters", .argument⟩, ⟨'s', "serial", .nothing⟩] args
  let separators := separatorList ((given.value? 'd').getD ['\t'])
  let (all, status) ← gather tellPlainly names
  if status != 0 && !given.has 's' then return status
  let lists := all.map fun f => (Text.lines f.2).map withoutEnd
  -- Columns that come from the standard input take its lines in turn.
  let shared := (all.filter fun f => f.1 == ['-']).length
  let input := (lists.zip all).filterMap fun l => if l.2.1 == ['-'] then some l.1 else none
  let lists := if shared < 2 || given.has 's' then lists
    else dealt input.flatten shared 0 ((lists.zip all).map fun l => (l.1, l.2.1 == ['-']))
  let rows := if given.has 's' then lists
    else columns (lists.foldl (fun n l => n + l.length) 1) lists
  Run.print (rows.flatMap fun row => joinInTurn separators 0 row ++ ['\n'])
  return status

/-- A line in pieces of some length, which end behind blanks where that is asked for. -/
def folded (width : Nat) (atBlanks : Bool) : Nat → Text → Text
  | 0, cs => cs
  | fuel + 1, cs =>
    if cs.length ≤ width then cs
    else
      let front := cs.take width
      let whole := (front.reverse.dropWhile (· != ' ')).reverse
      let piece := if atBlanks && !whole.isEmpty then whole else front
      piece ++ '\n' :: folded width atBlanks fuel (cs.drop piece.length)

/-- Breaks lines that are too long. -/
def fold (args : List Text) : Run Nat := do
  let (given, names) ← options 1
    [⟨'w', "width", .argument⟩, ⟨'b', "bytes", .nothing⟩, ⟨'s', "spaces", .nothing⟩] args
  let width ← match given.value? 'w' with
    | none => pure 80
    | some cs =>
      if isNatural cs && valueOf cs != 0 then pure (valueOf cs)
      else stop 1 (lit "invalid number of columns: " ++ inQuotes cs)
  let (all, status) ← gather tellPlainly names
  Run.print ((Text.lines (all.flatMap Prod.snd)).flatMap fun line =>
    let body := withoutEnd line
    folded width (given.has 's') line.length body ++ line.drop body.length)
  return status

/-! ### Cutting -/

/-- A range of positions, from one on; a range may be open at its end. -/
abbrev Positions := List (Nat × Option Nat)

/-- Whether a position is in one of several ranges. -/
def Positions.contains (p : Positions) (n : Nat) : Bool :=
  p.any fun r => r.1 ≤ n && (r.2.map fun last => decide (n ≤ last)).getD true

/-- Reads ranges of positions; `noun` is what a message calls them. -/
def Positions.read (noun : String) (cs : Text) : Run Positions :=
  (Blank.pieces (fun c => c == ',' || c == ' ') cs).mapM fun part => do
    let low := part.takeWhile Char.isDigit
    let numbered := if noun == "field" then "fields are numbered from 1"
      else "byte/character positions are numbered from 1"
    let invalid : Run (Nat × Option Nat) :=
      misused 1 (lit (if noun == "field" then "invalid field value "
        else "invalid byte/character position ") ++ inQuotes (part.dropWhile Char.isDigit))
    match part.drop low.length with
    | [] =>
      if valueOf low = 0 then misused 1 (lit numbered)
      else return (valueOf low, some (valueOf low))
    | '-' :: high =>
      if !high.all Char.isDigit then invalid
      else if low.isEmpty && high.isEmpty then
        misused 1 (lit "invalid range with no endpoint: -")
      else if !low.isEmpty && valueOf low = 0 then misused 1 (lit numbered)
      else
        let first := if low.isEmpty then 1 else valueOf low
        if high.isEmpty then return (first, none)
        else if valueOf high < first then misused 1 (lit "invalid decreasing range")
        else return (first, some (valueOf high))
    | _ => invalid

/-- The places where one of several ranges starts that does not go on with another one. -/
def Positions.starts (p : Positions) (complemented : Bool) (size : Nat) : List Nat :=
  let kept (n : Nat) : Bool := 0 < n && p.contains n != complemented
  ((List.range (size + 1)).filter fun n =>
    kept n && (!kept (n - 1) || (!complemented && p.any (·.1 == n)
      && !p.any fun r => r.1 < n && (r.2.map fun last => decide (n ≤ last)).getD true)))

/-- Cuts parts out of lines. -/
def cut (args : List Text) : Run Nat := do
  let (given, names) ← options 1
    [⟨'b', "bytes", .argument⟩, ⟨'c', "characters", .argument⟩, ⟨'f', "fields", .argument⟩,
     ⟨'d', "delimiter", .argument⟩, ⟨'s', "only-delimited", .nothing⟩, ⟨'n', "", .nothing⟩,
     ⟨'C', "complement", .nothing⟩, ⟨'O', "output-delimiter", .argument⟩] args
  let lists := given.filter fun o => o.1 == 'b' || o.1 == 'c' || o.1 == 'f'
  match lists with
  | [] => misused 1 (lit "you must specify a list of bytes, characters, or fields")
  | _ :: _ :: _ => misused 1 (lit "only one list may be specified")
  | [(letter, list)] => do
    let byField := letter == 'f'
    if (given.value? 'd').any fun d => 1 < d.length then
      misused 1 (lit "the delimiter must be a single character")
    if !byField && given.has 'd' then
      misused 1 (lit "an input delimiter may be specified only when operating on fields")
    if !byField && given.has 's' then
      misused 1
        (lit "suppressing non-delimited lines makes sense\n\tonly when operating on fields")
    let positions ← Positions.read (if byField then "field" else "byte") list
    let separator := ((given.value? 'd').bind List.head?).getD '\t'
    let joint := (given.value? 'O').getD (if byField then [separator] else [])
    let keeps (n : Nat) : Bool := positions.contains n != given.has 'C'
    let (all, status) ← gather tellPlainly names
    Run.print ((Text.lines (all.flatMap Prod.snd)).flatMap fun line =>
      let body := withoutEnd line
      if byField then
        if body.contains separator then
          let fields := (Text.splitAt separator body).zipIdx.filter fun f => keeps (f.2 + 1)
          Text.joinWith joint (fields.map Prod.fst) ++ ['\n']
        else if given.has 's' then []
        else body ++ ['\n']
      else
        let starts := positions.starts (given.has 'C') body.length
        let kept := body.zipIdx.filter fun c => keeps (c.2 + 1)
        -- Ranges that do not overlap stand apart.
        let parts := kept.zipIdx.flatMap fun c =>
          if c.2 != 0 && starts.contains (c.1.2 + 1) then joint ++ [c.1.1] else [c.1.1]
        parts ++ ['\n'])
    return status

/-! ### Changing characters -/

/-- A part of a set of characters. -/
inductive SetPart
  | one (c : Char)
  | range (first last : Char)
  | named (name : Text)
  /-- A character so many times, or as often as is needed. -/
  | repeated (c : Char) (count : Option Nat)

/-- A character of a set, which may be written as an escape. -/
def setCharacter : Text → Option (Char × Text)
  | '\\' :: rest =>
    let octal := (rest.take 3).takeWhile Escape.isOctal
    if !octal.isEmpty then some (Char.ofNat (valueIn 8 octal % 256), rest.drop octal.length)
    else
      match rest with
      | [] => some ('\\', [])
      | c :: left =>
        let d := match c with
          | 'a' => '\x07'
          | 'b' => '\x08'
          | 'f' => '\x0c'
          | 'n' => '\n'
          | 'r' => '\r'
          | 't' => '\t'
          | 'v' => '\x0b'
          | _ => c
        some (d, left)
  | c :: rest => some (c, rest)
  | [] => none

/-- The parts of a set of characters, or what is wrong with it. -/
def setParts : Nat → Text → Except Text (List SetPart)
  | 0, _ => .ok []
  | _ + 1, [] => .ok []
  | fuel + 1, cs =>
    let plain : Except Text (List SetPart) :=
      match setCharacter cs with
      | none => .ok []
      | some (c, rest) =>
        match rest with
        | '-' :: more =>
          match setCharacter more with
          | some (d, left) =>
            if d < c then .error (lit "range-endpoints of '"
              ++ cs.take (cs.length - left.length)
              ++ lit "' are in reverse collating sequence order")
            else (setParts fuel left).map (.range c d :: ·)
          | none => (setParts fuel rest).map (.one c :: ·)
        | _ => (setParts fuel rest).map (.one c :: ·)
    match cs with
    | '[' :: ':' :: rest =>
      let name := rest.takeWhile (· != ':')
      match rest.drop name.length with
      | ':' :: ']' :: left =>
        if (CharClass.named? name).isSome then (setParts fuel left).map (.named name :: ·)
        else .error (lit "invalid character class '" ++ name ++ ['\''])
      | _ => plain
    | '[' :: rest =>
      match setCharacter rest with
      | some (c, '*' :: more) =>
        let ds := more.takeWhile Char.isDigit
        match more.drop ds.length with
        | ']' :: left =>
          let count := if ds.head? == some '0' then valueIn 8 ds else valueOf ds
          (setParts fuel left).map
            (.repeated c (if ds.isEmpty || count = 0 then none else some count) :: ·)
        | _ => plain
      | _ => plain
    | _ => plain

/-- All characters. -/
def allCharacters : Text := (List.range 256).map Char.ofNat

/-- The characters of parts of a set, with `fill` copies where as many as needed are wanted. -/
def members (fill : Nat) (parts : List SetPart) : Text :=
  parts.flatMap fun
    | .one c => [c]
    | .range a b => ((List.range (b.toNat + 1)).drop a.toNat).map Char.ofNat
    | .named name => allCharacters.filter ((CharClass.named? name).getD fun _ => false)
    | .repeated c count => List.replicate (count.getD fill) c

/-- A text without further copies of a member of a set that follow it directly. -/
def squeezed (set : Text) : Option Char → Text → Text
  | _, [] => []
  | last, c :: rest =>
    if last == some c && set.contains c then squeezed set last rest
    else c :: squeezed set (some c) rest

/-- Whether parts name the letters of one case. -/
def namesCase (parts : List SetPart) : Bool :=
  parts.any fun
    | .named name => name == lit "upper" || name == lit "lower"
    | _ => false

/-- Changes, drops or joins characters. -/
def tr (args : List Text) : Run Nat := do
  let (given, sets) ← optionsBefore 1
    [⟨'c', "complement", .nothing⟩, ⟨'C', "", .nothing⟩, ⟨'d', "delete", .nothing⟩,
     ⟨'s', "squeeze-repeats", .nothing⟩, ⟨'t', "truncate-set1", .nothing⟩] args
  let deletes := given.has 'd'
  let squeezes := given.has 's'
  let complements := given.has 'c' || given.has 'C'
  let translates := !deletes && (sets.length == 2 || !squeezes)
  let fewest := if deletes == squeezes then 2 else 1
  let fewest := if !deletes && squeezes then 1 else fewest
  let most := if deletes && !squeezes then 1 else 2
  match sets with
  | [] => misused 1 (lit "missing operand")
  | first :: rest => do
    if sets.length < fewest then
      misused 1 (lit "missing operand after " ++ inQuotes first ++ lit (if deletes then
        "\nTwo strings must be given when both deleting and squeezing repeats."
        else "\nTwo strings must be given when translating."))
    if most < sets.length then
      misused 1 (lit "extra operand " ++ inQuotes (sets[most]?.getD []) ++ lit (if deletes && most == 1
          && sets.length == 2 then
        "\nOnly one string may be given when deleting without squeezing repeats." else ""))
    let read (cs : Text) : Run (List SetPart) :=
      match setParts (cs.length + 1) cs with
      | .ok parts => return parts
      | .error message => stop 1 message
    let firstParts ← read first
    let secondParts ← (rest.head?.map read).getD (pure [])
    let set1 := members 0 firstParts
    let inSet1 (c : Char) : Bool := set1.contains c != complements
    let source := if complements then allCharacters.filter inSet1 else set1
    let fixed := (members 0 secondParts).length
    let set2 := members (source.length - fixed) secondParts
    if translates && set2.isEmpty && !given.has 't' then
      stop 1 (lit "when not truncating set1, string2 must be non-empty")
    if translates && namesCase secondParts && !namesCase firstParts then
      stop 1 (lit "misaligned [:upper:] and/or [:lower:] construct")
    let cs ← modifyGet fun st => st.readAll 0
    let target := if given.has 't' then set2
      else set2 ++ List.replicate (source.length - set2.length) (set2.getLast?.getD '\x00')
    let table := (source.zip target).reverse
    let changed := if deletes then cs.filter fun c => !inSet1 c
      else if translates then cs.map fun c => (table.lookup c).getD c
      else cs
    let repeated := if sets.length == 2 then set2 else source
    Run.print (if squeezes then squeezed repeated none changed else changed)
    return 0

/-! ### Ordering -/

/-- How keys are compared. -/
structure KeyOrder where
  numeric : Bool := false
  reversed : Bool := false
  folded : Bool := false
  withoutBlanks : Bool := false
  dictionary : Bool := false
  printable : Bool := false

/-- Whether an order is the plain one. -/
def KeyOrder.isPlain (o : KeyOrder) : Bool :=
  !(o.numeric || o.reversed || o.folded || o.withoutBlanks || o.dictionary || o.printable)

/-- An order that letters describe. -/
def KeyOrder.ofLetters (o : KeyOrder) (cs : List Char) : KeyOrder :=
  cs.foldl (fun o c =>
    match c with
    | 'n' | 'g' => { o with numeric := true }
    | 'r' => { o with reversed := true }
    | 'f' => { o with folded := true }
    | 'b' => { o with withoutBlanks := true }
    | 'd' => { o with dictionary := true }
    | 'i' => { o with printable := true }
    | _ => o) o

/-- A part of a line by which lines are ordered: the field and character where it starts, and
those where it ends. -/
structure SortKey where
  field : Nat
  character : Nat := 1
  lastField : Option Nat := none
  lastCharacter : Nat := 0
  order : KeyOrder

/-- Whether a character is blank. -/
def isBlank (c : Char) : Bool := c == ' ' || c == '\t'

/-- Where the words of a text start and end; blanks belong to the word after them. `start` is
where the text starts itself. -/
def wordEnds : Nat → (start : Nat) → Text → List (Nat × Nat)
  | 0, _, _ => []
  | fuel + 1, start, cs =>
    if cs.isEmpty then []
    else
      let blanks := (cs.takeWhile isBlank).length
      let word := ((cs.drop blanks).takeWhile fun c => !isBlank c).length
      let size := blanks + word
      (start, start + size) :: wordEnds fuel (start + size) (cs.drop size)

/-- Where the fields of a line start and end. Without a separator they are its words. -/
def fieldEnds (separator : Option Char) (line : Text) : List (Nat × Nat) :=
  match separator with
  | some c =>
    ((Text.splitAt c line).foldl (fun (found, start) part =>
      (found ++ [(start, start + part.length)], start + part.length + 1)) ([], 0)).1
  | none => wordEnds (line.length + 1) 0 line

/-- The part of a line that a key takes. -/
def SortKey.part (k : SortKey) (separator : Option Char) (line : Text) : Text :=
  let ends := fieldEnds separator line
  let start := match ends[k.field - 1]? with
    | some (start, _) =>
      let start := if k.order.withoutBlanks then
          start + ((line.drop start).takeWhile isBlank).length
        else start
      start + (k.character - 1)
    | none => line.length
  let stop := match k.lastField with
    | none => line.length
    | some f =>
      match ends[f - 1]? with
      | some (start, stop) => if k.lastCharacter = 0 then stop else start + k.lastCharacter
      | none => line.length
  (line.take stop).drop start

/-- The number at the front of a text, as whole and fraction of equal length. -/
def numberAt (cs : Text) : Bool × Text × Text :=
  let cs := cs.dropWhile isBlank
  let (negative, cs) := match cs with
    | '-' :: rest => (true, rest)
    | _ => (false, cs)
  let whole := cs.takeWhile Char.isDigit
  let places := match cs.drop whole.length with
    | '.' :: rest => rest.takeWhile Char.isDigit
    | _ => []
  (negative, whole, places)

/-- The order of the numbers at the fronts of two texts. -/
def compareNumbers (a b : Text) : Ordering :=
  let (s, aWhole, aPlaces) := numberAt a
  let (t, bWhole, bPlaces) := numberAt b
  let width := max aPlaces.length bPlaces.length
  let value (negative : Bool) (whole places : Text) : Int :=
    let n : Int := valueOf (whole ++ places ++ List.replicate (width - places.length) '0')
    if negative then -n else n
  compare (value s aWhole aPlaces) (value t bWhole bPlaces)

/-- The order of texts by their bytes. -/
def compareTexts (a b : Text) : Ordering :=
  if Text.before a b then .lt else if Text.before b a then .gt else .eq

/-- The order of two keys. -/
def KeyOrder.compare (o : KeyOrder) (a b : Text) : Ordering :=
  let prepare (cs : Text) : Text :=
    let cs := if o.withoutBlanks then cs.dropWhile isBlank else cs
    let cs := if o.dictionary then cs.filter fun c => c.isAlphanum || isBlank c else cs
    let cs := if o.printable then cs.filter fun c => isPrinted c || c == ' ' else cs
    if o.folded then cs.map Char.toUpper else cs
  let result := if o.numeric then compareNumbers a b else compareTexts (prepare a) (prepare b)
  if o.reversed then result.swap else result

/-- A position in a key: field, character and the letters behind them. -/
def sortPosition (whole cs : Text) : Run (Nat × Option Nat × Text × Text) := do
  let field := cs.takeWhile Char.isDigit
  if field.isEmpty then
    stop 2 (lit "invalid number at field start: invalid count at start of " ++ inQuotes cs)
  if valueOf field = 0 then
    stop 2 (lit "field number is zero: invalid field specification " ++ inQuotes whole)
  let rest := cs.drop field.length
  let (character, rest) : Option Nat × Text := match rest with
    | '.' :: more =>
      let ds := more.takeWhile Char.isDigit
      (some (valueOf ds), more.drop ds.length)
    | _ => (none, rest)
  let letters := rest.takeWhile Char.isAlpha
  return (valueOf field, character, letters, rest.drop letters.length)

/-- Reads a key. -/
def sortKey (cs : Text) : Run SortKey := do
  let (field, character, letters, rest) ← sortPosition cs cs
  if character == some 0 then
    stop 2 (lit "character offset is zero: invalid field specification " ++ inQuotes cs)
  match rest with
  | [] => return { field, character := character.getD 1, order := KeyOrder.ofLetters {} letters }
  | ',' :: more => do
    let (last, lastCharacter, moreLetters, left) ← sortPosition cs more
    if !left.isEmpty then
      stop 2 (lit "stray character in field spec: invalid field specification " ++ inQuotes cs)
    return {
      field, character := character.getD 1, lastField := some last
      lastCharacter := lastCharacter.getD 0
      order := KeyOrder.ofLetters {} (letters ++ moreLetters) }
  | _ => stop 2 (lit "stray character in field spec: invalid field specification " ++ inQuotes cs)

/-- Orders lines. -/
def sort (args : List Text) : Run Nat := do
  let (given, names) ← options 2
    [⟨'b', "ignore-leading-blanks", .nothing⟩, ⟨'d', "dictionary-order", .nothing⟩,
     ⟨'f', "ignore-case", .nothing⟩, ⟨'g', "general-numeric-sort", .nothing⟩,
     ⟨'i', "ignore-nonprinting", .nothing⟩, ⟨'n', "numeric-sort", .nothing⟩,
     ⟨'r', "reverse", .nothing⟩, ⟨'k', "key", .argument⟩, ⟨'t', "field-separator", .argument⟩,
     ⟨'u', "unique", .nothing⟩, ⟨'s', "stable", .nothing⟩, ⟨'o', "output", .argument⟩,
     ⟨'c', "check", .attached⟩, ⟨'C', "", .nothing⟩, ⟨'m', "merge", .nothing⟩,
     ⟨'z', "zero-terminated", .nothing⟩] args
  let lineEnd := if given.has 'z' then '\x00' else '\n'
  let order := KeyOrder.ofLetters {} (given.map Prod.fst)
  let separator ← match given.value? 't' with
    | none => pure none
    | some [c] => pure (some c)
    | some ['\\', '0'] => pure (some '\x00')
    | some [] => stop 2 (lit "empty tab")
    | some cs => stop 2 (lit "multi-character tab " ++ inQuotes cs)
  let keys ← (given.filter fun o => o.1 == 'k').mapM fun o => sortKey o.2
  let keys := keys.map fun k => if k.order.isPlain then { k with order } else k
  let tell (name : Text) (e : FileError) : Run Unit :=
    stop 2 (lit (if e == .isADirectory then "read failed: " else "cannot read: ") ++ quoted name
      ++ lit ": " ++ cause e)
  let (all, _) ← gather tell names
  let lines := all.flatMap fun f =>
    let parts := Text.splitAt lineEnd f.2
    if parts.getLast? == some [] then parts.dropLast else parts
  let byKeys (a b : Text) : Ordering :=
    if keys.isEmpty then order.compare a b
    else keys.foldl (fun r k =>
      r.then (k.order.compare (k.part separator a) (k.part separator b))) .eq
  let whole (a b : Text) : Ordering :=
    if given.has 's' || given.has 'u' then byKeys a b
    else
      let last := compareTexts a b
      (byKeys a b).then (if order.reversed then last.swap else last)
  if given.has 'c' || given.has 'C' then
    let bad := (lines.zip lines.tail).zipIdx.find? fun p =>
      let r := whole p.1.1 p.1.2
      r == .gt || (given.has 'u' && r == .eq)
    match bad with
    | some ((_, line), n) => do
      if given.has 'c' then
        complain (names.headD ['-'] ++ ':' :: Text.ofNat (n + 2) ++ lit ": disorder: " ++ line)
      return 1
    | none => return 0
  else
    let sorted := lines.mergeSort fun a b => whole a b != .gt
    let distinct := if given.has 'u' then
        (sorted.foldl (fun (kept : List Text) line =>
          match kept with
          | last :: _ => if byKeys last line == .eq then kept else line :: kept
          | [] => [line]) []).reverse
      else sorted
    let out := distinct.flatMap fun line => line ++ [lineEnd]
    match given.value? 'o' with
    | none => Run.print out
    | some name =>
      match (← get).openOutput 99 .over name with
      | .ok st => set ((st.write 99 out).close 99)
      | .error e => stop 2 (lit "open failed: " ++ quoted name ++ lit ": " ++ cause e)
    return 0

/-- Groups of lines that follow each other and have the same key. -/
def groupsBy (key : Text → Text) (lines : List Text) : List (List Text) :=
  lines.splitBy fun a b => key a == key b

/-- Shows lines that follow each other and agree once. -/
def uniq (args : List Text) : Run Nat := do
  let (given, names) ← options 1
    [⟨'c', "count", .nothing⟩, ⟨'d', "repeated", .nothing⟩, ⟨'u', "unique", .nothing⟩,
     ⟨'i', "ignore-case", .nothing⟩, ⟨'f', "skip-fields", .argument⟩, ⟨'D', "", .nothing⟩,
     ⟨'s', "skip-chars", .argument⟩, ⟨'w', "check-chars", .argument⟩] args
  match names with
  | _ :: _ :: extra :: _ => misused 1 (lit "extra operand " ++ inQuotes extra)
  | _ => do
    let (all, status) ← gather tellPlainly (names.take 1)
    if status != 0 then return status
    let number (letter : Char) : Option Nat :=
      (given.value? letter).map fun cs => valueOf (cs.takeWhile Char.isDigit)
    let skipField (cs : Text) : Text := (cs.dropWhile isBlank).dropWhile fun c => !isBlank c
    let key (line : Text) : Text :=
      let cs := Nat.repeat skipField ((number 'f').getD 0) line
      let cs := cs.drop ((number 's').getD 0)
      let cs := ((number 'w').map fun n => cs.take n).getD cs
      if given.has 'i' then cs.map Char.toUpper else cs
    let groups := groupsBy key ((Text.lines (all.flatMap Prod.snd)).map withoutEnd)
    let shown := groups.filter fun g =>
      !((given.has 'd' || given.has 'D') && g.length == 1) && !(given.has 'u' && g.length != 1)
    let out := shown.flatMap fun g =>
      if given.has 'D' then g.flatMap fun line => line ++ ['\n']
      else
        (if given.has 'c' then padded 7 g.length ++ [' '] else []) ++ g.headD [] ++ ['\n']
    match names with
    | [_, output] =>
      match (← get).openOutput 99 .over output with
      | .ok st => set ((st.write 99 out).close 99)
      | .error e => stop 1 (quoted output ++ lit ": " ++ cause e)
    | _ => Run.print out
    return 0

end IncrementalBuild.Shell.Tool
