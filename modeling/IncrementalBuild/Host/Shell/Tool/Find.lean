import IncrementalBuild.Host.Shell.Pattern
import IncrementalBuild.Host.Shell.Tool.Starting
import IncrementalBuild.Host.Shell.Tool.Trees
/-!
# Finding files

The tool that walks through directories and tests each file.

## Main definitions

* `Shell.Tool.FileTest`, `Shell.Tool.FileAction` — what can be asked of a file and done with it.
* `Shell.Tool.Finder` — an expression of tests and actions, read by `Finder.read`.
* `Shell.Tool.Finder.value` — what an expression says of a file, with all it does.
* `Shell.Tool.find` — the tool, which returns its status.

An expression without actions prints the files it is true of.
-/

namespace IncrementalBuild.Shell.Tool

/-- A test of a file. -/
inductive FileTest
  | name (ignoresCase : Bool) (pattern : List Glob)
  | path (ignoresCase : Bool) (pattern : List Glob)
  | kind (letters : List Char)
  | empty
  /-- Whether the size in units, rounded up, is a number, or below or above it. -/
  | size (sign : Option Char) (count unit : Nat)
  | newer (time : Timestamp)
  | executable
  | always (b : Bool)

/-- What is done with a file. -/
inductive FileAction
  | print (ending : Char)
  | delete
  | launch (command : List Text)
  /-- The files are gathered as arguments of one program; the number tells such actions apart. -/
  | gather (number : Nat) (command : List Text)
  | prune
  | quit

/-- An expression of tests and actions. -/
inductive Finder
  | test (t : FileTest)
  | action (a : FileAction)
  | no (f : Finder)
  | both (f g : Finder)
  | either (f g : Finder)
  | sequence (f g : Finder)

/-- How files are looked for. -/
structure FindPlan where
  least : Nat := 0
  most : Option Nat := none
  /-- Whether what a directory holds comes before it. -/
  fromBelow : Bool := false
  /-- Whether the expression has actions. -/
  acts : Bool := false
  /-- How many actions gather files. -/
  gathering : Nat := 0

namespace Finder

/-! ### Reading -/

/-- An expression while it is read. -/
structure Rest where
  /-- The argument before. -/
  before : Text := []
  args : List Text
  plan : FindPlan := {}
  files : Files

/-- A step of reading; a failure has a message. -/
abbrev Step := StateT Rest (Except Text)

/-- The next argument, if there is one. -/
def next? : Step (Option Text) := do
  let s ← get
  match s.args with
  | [] => return none
  | a :: args => do
    set { s with before := a, args }
    return some a

/-- The argument of a test or an action. -/
def argument (name : Text) : Step Text := do
  match ← next? with
  | some a => return a
  | none => throw (lit "missing argument to \x60" ++ name ++ ['\''])

/-- The number that a setting has to be. -/
def depth (name : Text) : Step Nat := do
  let a ← argument name
  if isNatural a then return valueOf a
  else
    throw (lit "Expected a positive decimal integer argument to " ++ name ++ lit ", but got "
      ++ inQuotes a)

/-- Changes the plan; such an argument is true of every file. -/
def plan (f : FindPlan → FindPlan) : Step Finder := do
  modify fun s => { s with plan := f s.plan }
  return .test (.always true)

/-- An action. -/
def act (a : FileAction) : Step Finder := do
  modify fun s => { s with plan := { s.plan with acts := true } }
  return .action a

/-- The kinds of files that a list of letters asks for. -/
def kinds (cs : Text) : Step Finder := do
  let parts := Text.splitAt ',' cs
  match parts.find? fun p => !(p.length == 1 && p.all "bcdpflsD".toList.contains) with
  | some p => throw (lit "Unknown argument to -type: " ++ p.take 1)
  | none => return .test (.kind parts.flatten)

/-- The size that an argument asks for. -/
def size (cs : Text) : Step Finder := do
  let (sign, rest) : Option Char × Text := match cs with
    | '+' :: rest => (some '+', rest)
    | '-' :: rest => (some '-', rest)
    | _ => (none, cs)
  let ds := rest.takeWhile Char.isDigit
  let unit : Option Nat := match rest.drop ds.length with
    | [] | ['b'] => some 512
    | ['c'] => some 1
    | ['w'] => some 2
    | ['k'] => some 1024
    | ['M'] => some 1048576
    | ['G'] => some 1073741824
    | _ => none
  match unit with
  | some unit =>
    if ds.isEmpty then throw (lit "Invalid argument \x60" ++ cs ++ lit "' to -size")
    else return .test (.size sign (valueOf ds) unit)
  | none => throw (lit "invalid -size type \x60" ++ rest.drop (rest.length - 1) ++ ['\''])

/-- The command of an action, up to its end; the flag says whether files are gathered for it. -/
def command (name : Text) (taken : List Text) : List Text →
    Except Text (List Text × Bool × List Text)
  | [] => .error (lit "missing argument to \x60" ++ name ++ ['\''])
  | a :: rest =>
    if a == [';'] then
      if taken.isEmpty then .error (lit "missing argument to \x60" ++ name ++ ['\''])
      else .ok (taken.reverse, false, rest)
    else if a == ['+'] && taken.head? == some ['\x7b', '\x7d'] then
      .ok (taken.tail.reverse, true, rest)
    else command name (a :: taken) rest

/-- An action that starts a program. -/
def starting (name : Text) : Step Finder := do
  let s ← get
  let (words, gathers, rest) ← command name [] s.args
  set { s with before := name, args := rest }
  if gathers then
    let number := s.plan.gathering
    modify fun s => { s with plan := { s.plan with gathering := number + 1 } }
    act (.gather number words)
  else act (.launch words)

/-- A test or an action by its name. -/
def primary (name : Text) : Step Finder := do
  let glob (cs : Text) : List Glob := Glob.ofMarked (Marked.ofText false cs)
  let folded (cs : Text) : List Glob := glob (cs.map Char.toLower)
  match String.ofList name with
  | "-name" => return .test (.name false (glob (← argument name)))
  | "-iname" => return .test (.name true (folded (← argument name)))
  | "-path" | "-wholename" => return .test (.path false (glob (← argument name)))
  | "-ipath" => return .test (.path true (folded (← argument name)))
  | "-type" => kinds (← argument name)
  | "-size" => size (← argument name)
  | "-empty" => return .test .empty
  | "-true" => return .test (.always true)
  | "-false" => return .test (.always false)
  | "-executable" => return .test .executable
  | "-readable" | "-writable" | "-xdev" | "-mount" | "-noleaf" | "-follow" =>
    return .test (.always true)
  | "-newer" => do
    let a ← argument name
    match (← get).files.modified (Text.toPath a) with
    | .ok time => return .test (.newer time)
    | .error e => throw (inQuotes a ++ lit ": " ++ cause e)
  | "-maxdepth" => do
    let n ← depth name
    plan fun p => { p with most := some n }
  | "-mindepth" => do
    let n ← depth name
    plan fun p => { p with least := n }
  | "-depth" => plan fun p => { p with fromBelow := true }
  | "-print" => act (.print '\n')
  | "-print0" => act (.print '\x00')
  | "-delete" => do
    let _ ← plan fun p => { p with fromBelow := true }
    act .delete
  | "-prune" => return .action .prune
  | "-quit" => act .quit
  | "-exec" => starting name
  | _ =>
    if name.head? == some '-' && name != ['-'] then
      throw (lit "unknown predicate \x60" ++ name ++ ['\''])
    else throw (lit "paths must precede expression: \x60" ++ name ++ ['\''])

/-- Whether an argument joins two expressions or ends one. -/
def isJoint (a : Text) : Bool :=
  [lit "-o", lit "-or", lit "-a", lit "-and", [','], [')']].contains a

/-- The next argument, if it is one of several. -/
def takeOneOf (names : List Text) : Step Bool := do
  match (← get).args with
  | a :: _ =>
    if names.contains a then do
      let _ ← next?
      return true
    else return false
  | [] => return false

mutual

/-- Expressions with commas between them. -/
def whole : Nat → Step Finder
  | 0 => return .test (.always true)
  | fuel + 1 => do
    let f ← choice fuel
    if ← takeOneOf [[',']] then return .sequence f (← whole fuel) else return f

/-- Expressions of which one has to be true. -/
def choice : Nat → Step Finder
  | 0 => return .test (.always true)
  | fuel + 1 => do
    let f ← series fuel
    if ← takeOneOf [lit "-o", lit "-or"] then return .either f (← choice fuel) else return f

/-- Expressions that all have to be true. -/
def series : Nat → Step Finder
  | 0 => return .test (.always true)
  | fuel + 1 => do
    let f ← single fuel
    let joined ← takeOneOf [lit "-a", lit "-and"]
    match (← get).args with
    | a :: _ => if !joined && isJoint a then return f else return .both f (← series fuel)
    | [] => if joined then return .both f (← series fuel) else return f

/-- One expression. -/
def single : Nat → Step Finder
  | 0 => return .test (.always true)
  | fuel + 1 => do
    let before := (← get).before
    match ← next? with
    | none => throw (lit "expected an expression after " ++ inQuotes before)
    | some a =>
      if a == ['!'] || a == lit "-not" then return .no (← single fuel)
      else if a == ['('] then do
        let f ← whole fuel
        if ← takeOneOf [[')']] then return f
        else
          throw (lit ("invalid expression; I was expecting to find a ')' somewhere but did not "
            ++ "see one."))
      else if a == [')'] then throw (lit "you have too many ')'")
      else if isJoint a then
        throw (lit "invalid expression; you have used a binary operator " ++ inQuotes a
          ++ lit " with nothing before it.")
      else primary a

end

/-- Reads an expression. -/
def read (files : Files) (args : List Text) : Except Text (Finder × FindPlan) := do
  if args.isEmpty then return (.test (.always true), {})
  let (f, rest) ← (whole (8 * args.length + 8)).run { args, files }
  if !rest.args.isEmpty then throw (lit "you have too many ')'")
  return (f, rest.plan)

end Finder

/-! ### Testing -/

/-- A file on the way. -/
structure Visited where
  shown : Text
  place : Location

/-- Whether a file passes a test. -/
def FileTest.passes (files : Files) (v : Visited) : FileTest → Bool
  | .name ignoresCase pattern =>
    let last := if v.shown.all (· == '/') then v.shown else lastPart v.shown
    Glob.matchesAll pattern (if ignoresCase then last.map Char.toLower else last)
  | .path ignoresCase pattern =>
    Glob.matchesAll pattern (if ignoresCase then v.shown.map Char.toLower else v.shown)
  | .kind letters =>
    match files.at? v.place with
    | some .directory => letters.contains 'd'
    | some (.file _ _ _) => letters.contains 'f'
    | some (.socket _) => letters.contains 's'
    | none => false
  | .empty =>
    match files.at? v.place with
    | some (.file contents _ _) => contents.isEmpty
    | some .directory => (namesIn files v.place).isEmpty
    | _ => false
  | .size sign count unit =>
    let bytes := match files.at? v.place with
      | some (.file contents _ _) => contents.length
      | _ => 4096
    let units := (bytes + unit - 1) / unit
    match sign with
    | some '+' => count < units
    | some _ => units < count
    | none => units == count
  | .newer time =>
    match files.at? v.place with
    | some (.file _ t _) => time.nanos < t.nanos
    | _ => time.nanos < files.clock.nanos
  | .executable =>
    match files.at? v.place with
    | some (.file _ _ mark) => mark
    | e => e == some .directory
  | .always b => b

/-- What has come of a search so far. -/
structure FindProgress where
  /-- The files that were gathered for actions. -/
  gathered : List (Nat × List Text × Text) := []
  /-- Whether a directory is not entered. -/
  pruned : Bool := false
  finished : Bool := false
  failed : Bool := false

/-- A step of a search. -/
abbrev Search := StateT FindProgress Run

/-- The mark that stands for the file. -/
def fileMark : Text := ['\x7b', '\x7d']

/-- Does something with a file; whether that went well. -/
def FileAction.perform (launch : Launch) (v : Visited) : FileAction → Search Bool
  | .print ending => do
    liftM (Run.print (v.shown ++ [ending]))
    return true
  | .delete => do
    let files := (← liftM (get : Run State)).files
    let p := Text.toPath v.shown
    if v.shown == ['.'] then return true
    match (if files.isDirectoryAt v.place then removeDirectory files p else files.remove p) with
    | .ok files => do
      liftM (modify fun st => { st with files } : Run Unit)
      return true
    | .error e => do
      liftM (complain (lit "cannot delete " ++ inQuotes v.shown ++ lit ": " ++ cause e))
      modify fun p => { p with failed := true }
      return false
  | .launch command => do
    match ← liftM (launch (command.map (substituted fileMark v.shown 0))) with
    | .ok ending => return ending == .code 0
    | .error e => do
      liftM (complain (inQuotes (command.headD []) ++ lit ": " ++ cause e))
      return false
  | .gather number command => do
    modify fun p => { p with gathered := p.gathered ++ [(number, command, v.shown)] }
    return true
  | .prune => do
    modify fun p => { p with pruned := true }
    return true
  | .quit => do
    modify fun p => { p with finished := true }
    return true

/-- What an expression says of a file, with all it does. -/
def Finder.value (launch : Launch) (v : Visited) : Finder → Search Bool
  | .test t => return t.passes (← liftM (get : Run State)).files v
  | .action a => do
    if (← get).finished then return false else a.perform launch v
  | .no f => return !(← f.value launch v)
  | .both f g => do
    if ← f.value launch v then g.value launch v else return false
  | .either f g => do
    if ← f.value launch v then return true else g.value launch v
  | .sequence f g => do
    let _ ← f.value launch v
    g.value launch v

/-! ### The tool -/

/-- Looks at a file and at what it holds. -/
def visit (launch : Launch) (f : Finder) (plan : FindPlan) :
    Nat → (depth : Nat) → Visited → Search Unit
  | 0, _, _ => return
  | fuel + 1, depth, v => do
    let look : Search Unit := do
      modify fun p => { p with pruned := false }
      if plan.least ≤ depth && !(← get).finished then
        let _ ← f.value launch v
    if !plan.fromBelow then look
    let pruned := !plan.fromBelow && (← get).pruned
    let files := (← liftM (get : Run State)).files
    let deeper := (plan.most.map fun n => decide (depth < n)).getD true
    if files.isDirectoryAt v.place && !pruned && deeper && !(← get).finished then
      for name in namesIn files v.place do
        let shown := if v.shown.getLast? == some '/' then v.shown ++ name
          else v.shown ++ '/' :: name
        visit launch f plan fuel (depth + 1) ⟨shown, v.place ++ [Text.toString name]⟩
    if plan.fromBelow then look

/-- Starts the programs for which files were gathered; whether all went well. -/
def launchGathered (launch : Launch) (progress : FindProgress) : Run Bool := do
  let mut fine := true
  for number in (progress.gathered.map Prod.fst).eraseDups do
    let own := progress.gathered.filter fun g => g.1 == number
    let command := (own.head?.map fun g => g.2.1).getD []
    match ← launch (command ++ own.map fun g => g.2.2) with
    | .ok ending => if ending != .code 0 then fine := false
    | .error e => do
      complain (inQuotes (command.headD []) ++ lit ": " ++ cause e)
      fine := false
  return fine

/-- Finds files and directories. -/
def find (launch : Launch) (args : List Text) : Run Nat := do
  let args := args.dropWhile fun a => [lit "-L", lit "-H", lit "-P"].contains a
  let isPath (a : Text) : Bool :=
    !((a.head? == some '-' && a != ['-']) || [['!'], ['('], [')'], [',']].contains a)
  let starts := args.takeWhile isPath
  match Finder.read (← get).files (args.drop starts.length) with
  | .error message => stop 1 message
  | .ok (f, plan) => do
    let f := if plan.acts then f else .both f (.action (.print '\n'))
    let mut progress : FindProgress := {}
    for start in (if starts.isEmpty then [['.']] else starts) do
      let files := (← get).files
      match files.locate (Text.toPath start) with
      | .error e =>
        complain (inQuotes start ++ lit ": " ++ cause e)
        progress := { progress with failed := true }
      | .ok place =>
        let ((), next) ←
          (visit launch f plan (files.entries.length + 1) 0 ⟨start, place⟩).run progress
        progress := next
    let fine ← launchGathered launch progress
    return if progress.failed || !fine then 1 else 0

end IncrementalBuild.Shell.Tool
