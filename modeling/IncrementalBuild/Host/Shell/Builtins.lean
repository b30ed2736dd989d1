import IncrementalBuild.Host.Executable
import IncrementalBuild.Host.Shell.Condition
import IncrementalBuild.Host.Shell.Fields
import IncrementalBuild.Host.Shell.Printing
/-!
# Commands of the shell itself

The commands that change the state of the shell and need no further script.

## Main definitions

* `Shell.Builtin.names`, `Shell.Builtin.special` — the commands of the shell; a failure of a
  special one ends the script.
* `Shell.Builtin.options` — reads the options of a command.
* `Shell.Builtin.run?` — runs a command.
* `Shell.Builtin.describe` — what a command's name stands for.

Each command returns its status.
-/

namespace IncrementalBuild.Shell

namespace Builtin

/-- The special commands. -/
def special : List String :=
  [".", ":", "break", "continue", "eval", "exec", "exit", "export", "local", "readonly", "return",
   "set", "shift", "times", "trap", "unset"]

/-- The commands whose arguments may be assignments. -/
def assigning : List String := ["alias", "export", "local", "readonly"]

/-- The commands of the shell. -/
def names : List String :=
  special ++ ["[", "alias", "bg", "cd", "chdir", "command", "echo", "false", "fg", "getopts",
    "hash", "jobs", "kill", "printf", "pwd", "read", "test", "true", "type", "ulimit", "umask",
    "unalias", "wait"]

/-! ### Arguments -/

/-- Reads options at the front of arguments: letters behind a minus sign. Those of `valued` have
an argument of their own. What is returned are the options with their arguments, and the arguments
left. -/
def optionsWithin (plain valued : List Char) :
    Nat → (letters : Text) → List Text → Run (List (Char × Text) × List Text)
  | 0, _, args => return ([], args)
  | fuel + 1, c :: letters, args => do
    if plain.contains c then
      let (more, args) ← optionsWithin plain valued fuel letters args
      return ((c, []) :: more, args)
    else if valued.contains c then
      match letters, args with
      | [], [] => Run.fail (lit "No arg for -" ++ [c] ++ lit " option")
      | [], a :: args => do
        let (more, args) ← optionsWithin plain valued fuel [] args
        return ((c, a) :: more, args)
      | _, _ => do
        let (more, args) ← optionsWithin plain valued fuel [] args
        return ((c, letters) :: more, args)
    else Run.fail (lit "Illegal option -" ++ [c])
  | fuel + 1, [], args =>
    match args with
    | ['-', '-'] :: rest => return ([], rest)
    | ('-' :: c :: letters) :: rest => optionsWithin plain valued fuel (c :: letters) rest
    | _ => return ([], args)

/-- The options at the front of arguments, and the arguments after them. -/
def options (plain valued : String) (args : List Text) : Run (List (Char × Text) × List Text) :=
  optionsWithin plain.toList valued.toList (args.flatten.length + args.length + 1) [] args

/-- A text in quotes as the shell would read it. -/
def quotedWithin : Nat → Text → Text
  | 0, _ => []
  | fuel + 1, cs =>
    let plain := cs.takeWhile (· != '\'')
    let rest := cs.drop plain.length
    let marks := rest.takeWhile (· == '\'')
    let left := rest.drop marks.length
    let start : Text := '\'' :: plain ++ ['\'']
    if marks.isEmpty then start
    else
      let both := start ++ '"' :: marks ++ ['"']
      if left.isEmpty then both ++ ['\'', '\''] else both ++ quotedWithin fuel left

/-- A text in quotes as the shell would read it. -/
def quoted (cs : Text) : Text := quotedWithin (cs.length + 1) cs

/-- Prints variables as commands that would set them. -/
def printVariables (start : Text) (all : List (Text × Variable)) : Run Nat := do
  let sorted := all.mergeSort fun a b => !Text.before b.1 a.1
  for (name, v) in sorted do
    let value : Text := match v.value with
      | some cs => '=' :: quoted cs
      | none => []
    Run.print (start ++ name ++ value ++ ['\n'])
  return 0

/-- A variable that stays as it is. -/
def refuseFixed (name : Text) : Run Unit := do
  if ((← get).bindings.lookup name).any (·.fixed) then Run.fail (name ++ lit ": is read only")

/-- A name and perhaps a value from an argument. -/
def named (a : Text) : Text × Option Text :=
  let name := a.takeWhile (· != '=')
  (name, if a.length == name.length then none else some (a.drop (name.length + 1)))

/-! ### Variables -/

/-- Marks variables as exported or fixed. -/
def mark (fixes : Bool) (command : String) (args : List Text) : Run Nat := do
  let (given, args) ← options "p" "" args
  if args.isEmpty || !given.isEmpty then
    let all := (← get).bindings.filter fun v => if fixes then v.2.fixed else v.2.exported
    printVariables (lit command ++ [' ']) all
  else
    for a in args do
      let (name, value) := named a
      match value with
      | some value => Run.assign name value
      | none =>
        if !isName name then Run.fail (name ++ lit ": bad variable name")
      modify fun st =>
        let v := (st.bindings.lookup name).getD { value := none }
        st.putVariable name
          { v with exported := v.exported || !fixes, fixed := v.fixed || fixes }
    return 0

/-- Forgets variables or functions. -/
def unset (args : List Text) : Run Nat := do
  let (given, args) ← options "vf" "" args
  let functions := given.getLast?.map Prod.fst == some 'f'
  for name in args do
    if functions then
      modify fun st => { st with functions := st.functions.filter (·.1 != name) }
    else do
      if !isName name then Run.fail (name ++ lit ": bad variable name")
      refuseFixed name
      modify fun st => st.forget name
  return 0

/-- Makes variables local to the function that is run. -/
def makeLocal (args : List Text) : Run Nat := do
  if (← get).saved.isEmpty then Run.fail (lit "not in a function")
  for a in args do
    if a == ['-'] then modify State.keepOptions
    else do
      let (name, value) := named a
      if !isName name then Run.fail (name ++ lit ": bad variable name")
      refuseFixed name
      modify fun st => st.keep name
      match value with
      | some value => Run.assign name value
      | none =>
        modify fun st =>
          let v := (st.bindings.lookup name).getD { value := none }
          st.putVariable name { v with value := none }
  return 0

/-! ### Options and arguments of the script -/

/-- The options of the shell: their names and letters. -/
def optionNames : List (String × Option Char) :=
  [("errexit", some 'e'), ("noglob", some 'f'), ("ignoreeof", some 'I'),
   ("interactive", some 'i'), ("monitor", some 'm'), ("noexec", some 'n'), ("stdin", some 's'),
   ("xtrace", some 'x'), ("verbose", some 'v'), ("vi", some 'V'), ("emacs", some 'E'),
   ("noclobber", some 'C'), ("allexport", some 'a'), ("notify", some 'b'), ("nounset", some 'u'),
   ("privileged", some 'p'), ("nolog", none), ("debug", none)]

/-- Switches an option on or off by its letter. -/
def setOption (on : Bool) (letter : Char) : Run Unit := do
  if optionNames.any fun o => o.2 == some letter then
    modify fun st =>
      let others := st.options.filter (· != letter)
      { st with options := if on then letter :: others else others }
  else Run.fail (lit "Illegal option -" ++ [letter])

/-- Prints the options. -/
def printOptions (readable : Bool) : Run Unit := do
  let given := (← get).options
  if readable then Run.print (lit "Current option settings\n")
  for (name, letter) in optionNames do
    let on := (letter.map given.contains).getD false
    let padding := List.replicate (16 - name.length) ' '
    Run.print (if readable then lit name ++ padding ++ lit (if on then "on\n" else "off\n")
      else lit (if on then "set -o " else "set +o ") ++ lit name ++ ['\n'])

/-- Switches an option on or off by its name, or prints all. -/
def setNamedOption (on : Bool) (name : Option Text) : Run Unit := do
  match name with
  | none => printOptions on
  | some name =>
    match optionNames.lookup (String.ofList name) with
    | some (some letter) => setOption on letter
    | some none => return
    | none => Run.fail (lit "Illegal option -o " ++ name)

/-- Goes through letters of options; what is left of the arguments. The letters of `starting` are
those that only the start of the shell has, and are returned. -/
def letters (starting : Bool) (on : Bool) : Text → List Text → Run (List Char × List Text)
  | [], args => return ([], args)
  | c :: cs, args => do
    if starting && (c == 'c' || c == 'l') then
      let (found, args) ← letters starting on cs args
      return (c :: found, args)
    else if c == 'o' then do
      setNamedOption on args.head?
      letters starting on cs args.tail
    else do
      setOption on c
      letters starting on cs args

/-- Goes through the options of the shell. What is returned are the letters that only the start of
the shell has, the arguments left, and whether they were set apart from the options. -/
def shellOptions (starting : Bool) : Nat → List Text → Run (List Char × List Text × Bool)
  | 0, args => return ([], args, false)
  | fuel + 1, args => do
    match args with
    | ['-'] :: rest => do
      if !starting then
        modify fun st => { st with options := st.options.filter fun c => c != 'x' && c != 'v' }
      return ([], rest, false)
    | ['-', '-'] :: rest => return ([], rest, true)
    | (s :: cs) :: rest =>
      if s == '-' || s == '+' then do
        let (found, rest) ← letters starting (s == '-') cs rest
        let (more, rest, apart) ← shellOptions starting fuel rest
        return (found ++ more, rest, apart)
      else return ([], args, false)
    | _ => return ([], args, false)

/-- Sets options and arguments, or prints the variables. -/
def set (args : List Text) : Run Nat := do
  if args.isEmpty then
    printVariables [] ((← get).bindings.filter fun v => v.2.value.isSome)
  else do
    let (_, rest, apart) ← shellOptions false (args.length + 1) args
    if apart || !rest.isEmpty then
      modify fun st => { st with arguments := rest, optionIndex := 1, optionOffset := none }
    return 0

/-- Drops arguments of the script. -/
def shift (args : List Text) : Run Nat := do
  let n ← match args with
    | a :: _ => Run.small a
    | [] => pure 1
  if (← get).arguments.length < n then Run.fail (lit "can't shift that many")
  modify fun st =>
    { st with arguments := st.arguments.drop n, optionIndex := 1, optionOffset := none }
  return 0

/-- Looks for the next option among arguments: the letter found, its argument or what is wrong,
and where to go on. -/
def getopts (args : List Text) : Run Nat := do
  let (_, args) ← options "" "" args
  match args with
  | spec :: target :: given => do
    let st ← get
    let among := if given.isEmpty then st.arguments else given
    let (index, offset) : Nat × Option Nat :=
      if among.length + 1 < st.optionIndex then (1, none) else (st.optionIndex, st.optionOffset)
    let silent := spec.head? == some ':'
    -- What is left of an argument whose first letters were found before.
    let left : Text := match offset with
      | some n => if index ≤ 1 then [] else ((among[index - 2]?).getD []).drop n
      | none => []
    let conclude (letter : Char) (index : Nat) (left : Option Text) (status : Nat) : Run Nat := do
      modify fun st => st.assign (lit "OPTIND") (Text.ofNat index)
      Run.assign target [letter]
      let offset := left.map fun cs => ((among[index - 2]?).getD []).length - cs.length
      modify fun st => { st with optionIndex := index, optionOffset := offset }
      return status
    let opened : Option (Text × Nat) ← (
      if !left.isEmpty then pure (some (left, index))
      else
        match among[index - 1]? with
        | some ['-', '-'] => pure none
        | some ('-' :: c :: cs) => pure (some (c :: cs, index + 1))
        | _ => pure none)
    match opened with
    | some (c :: rest, next) => do
      let argued := spec.dropWhile (· != c)
      if argued.isEmpty || c == ':' then do
        if silent then Run.assign (lit "OPTARG") [c]
        else do
          Run.complain (lit "Illegal option -" ++ [c])
          modify fun st => st.forget (lit "OPTARG")
        conclude '?' next (some rest) 0
      else if argued.take 2 == [c, ':'] then
        match rest, among[next - 1]? with
        | [], none => do
          if silent then do
            Run.assign (lit "OPTARG") [c]
            conclude ':' next none 0
          else do
            Run.complain (lit "No arg for -" ++ [c] ++ lit " option")
            modify fun st => st.forget (lit "OPTARG")
            conclude '?' next none 0
        | [], some a => do
          Run.assign (lit "OPTARG") a
          conclude c (next + 1) none 0
        | _, _ => do
          Run.assign (lit "OPTARG") rest
          conclude c next none 0
      else do
        Run.assign (lit "OPTARG") []
        conclude c next (some rest) 0
    | _ => do
      let skipped := left.isEmpty && among[index - 1]? == some ['-', '-']
      conclude '?' (if skipped then index + 1 else index) none 1
  | _ => Run.fail (lit "Usage: getopts optstring var [arg...]")

/-! ### Input -/

/-- A line of the standard input: its characters, those behind a backslash marked, and whether it
was ended by a line feed. A line that ends in a backslash goes on. -/
def line (raw : Bool) : Text → List (Char × Bool) × Bool × Text
  | [] => ([], false, [])
  | '\n' :: rest => ([], true, rest)
  | c :: rest =>
    if c == '\\' && !raw then
      match rest with
      | [] => ([], false, [])
      | '\n' :: more => line raw more
      | d :: more =>
        let (cs, ended, left) := line raw more
        ((d, true) :: cs, ended, left)
    else
      let (cs, ended, left) := line raw rest
      (if c == '\x00' then cs else (c, false) :: cs, ended, left)

/-- Reads a line into variables. -/
def read (args : List Text) : Run Nat := do
  let (given, names) ← options "r" "p" args
  if names.isEmpty then Run.fail (lit "arg count")
  let raw := given.any fun o => o.1 == 'r'
  let text ← modifyGet fun st => st.readAll 0
  let (cs, ended, left) := line raw text
  modify fun st => st.unread 0 left
  let fields := Fields.splitInto (← get).separators (cs.length + 1) names.length cs
  for (name, n) in names.zipIdx do
    Run.assign name (fields[n]?.getD [])
  return if ended then 0 else 1

/-! ### Directories -/

/-- A path without `.` and `..`, read from a location. -/
def resolved (start : Location) (cs : Text) : Location :=
  (Path.segments cs).foldl (fun loc segment =>
    if segment == [] || segment == ['.'] then loc
    else if segment == ['.', '.'] then loc.dropLast
    else loc ++ [Text.toString segment]) (if cs.head? == some '/' then [] else start)

/-- The text of a location. -/
def textOf (loc : Location) : Text := lit ("/" ++ "/".intercalate loc)

/-- Goes to a directory; whether that was possible. -/
def enter (cs : Text) : Run Bool := do
  let st ← get
  let loc := resolved st.files.workDir cs
  if st.files.isDirectoryAt loc then do
    let old := textOf st.files.workDir
    modify fun st => { st with files := { st.files with workDir := loc } }
    for (name, value) in [(lit "OLDPWD", old), (lit "PWD", textOf loc)] do
      Run.assign name value
      modify fun st =>
        let v := (st.bindings.lookup name).getD { value := none }
        st.putVariable name { v with exported := true }
    return true
  else return false

/-- Changes the work directory. -/
def cd (args : List Text) : Run Nat := do
  let (_, args) ← options "LP" "" args
  let st ← get
  let (goal, shown) : Text × Bool := match args with
    | [] => ((st.value? (lit "HOME")).getD [], false)
    | ['-'] :: _ => ((st.value? (lit "OLDPWD")).getD [], true)
    | a :: _ => (a, false)
  let first := (Path.segments goal).headD []
  let direct := goal.head? == some '/' || first == ['.'] || first == ['.', '.']
  let starts : List Text := match st.value? (lit "CDPATH") with
    | some cs => if direct then [] else Text.splitAt ':' cs
    | none => []
  let candidates := starts.map fun start =>
    (start, if start.isEmpty then goal else start ++ '/' :: goal)
  let chosen := candidates.find? fun c =>
    st.files.isDirectory (Text.toPath (if c.2.isEmpty then ['.'] else c.2))
  let (place, shown) := match chosen with
    | some (start, cs) => (cs, shown || !start.isEmpty)
    | none => (goal, shown)
  if ← enter place then do
    if shown then Run.print (textOf (← get).files.workDir ++ ['\n'])
    return 0
  else Run.fail (lit "can't cd to " ++ goal)

/-- Prints the work directory. -/
def pwd (args : List Text) : Run Nat := do
  let _ ← options "LP" "" args
  Run.print (textOf (← get).files.workDir ++ ['\n'])
  return 0

/-! ### Signals and processes -/

/-- Sets or prints the commands to run on signals. -/
def trap (args : List Text) : Run Nat := do
  let (_, args) ← options "" "" args
  match args with
  | [] => do
    let sorted := (← get).traps.mergeSort fun a b => a.1 ≤ b.1
    for (n, action) in sorted do
      Run.print (lit "trap -- " ++ quoted action ++ lit (" " ++ (Signal.name? n).getD "") ++ ['\n'])
    return 0
  | first :: rest => do
    let numbered := isNatural first && (Signal.ofName? 0 first).isSome
    let (action, signals) : Option Text × List Text :=
      if rest.isEmpty || numbered then (none, args)
      else (if first == ['-'] then none else some first, rest)
    let mut status := 0
    for name in signals do
      if status == 0 then
        match Signal.ofName? 0 name with
        | some n =>
          modify fun st =>
            let others := st.traps.filter (·.1 != n)
            { st with traps := match action with
                | some cs => (n, cs) :: others
                | none => others }
        | none => do
          Run.complain (lit "trap: " ++ name ++ lit ": bad trap")
          status := 1
    return status

/-- Sends a signal to this process. -/
def receive (signal : Nat) : Run Unit := do
  let st ← get
  let action := if signal == 9 then none else st.traps.lookup signal
  match action with
  | some [] => return ()
  | some _ =>
    modify fun st => { st with arrived := signal :: st.arrived.filter (· != signal) }
  | none => if !Signal.isHarmless signal && !Signal.stops signal then throw (.killed signal)

/-- Sends a signal to a process; whether there is one. -/
def send (signal process : Nat) : Run Bool := do
  let st ← get
  if process == st.self || process == 0 then do
    receive signal
    return true
  else if st.ancestors.contains process then do
    if signal != 0 then
      modify fun st => { st with posted := st.posted ++ [(process, signal)] }
    return true
  else if st.jobs.any fun j => j.process == process then do
    -- A job that is asleep ends at once.
    modify fun st => { st with jobs := st.jobs.map fun j =>
      if j.process == process && st.elapsed < j.finish && !Signal.isHarmless signal then
        { j with status := .signal signal, finish := st.elapsed }
      else j }
    return true
  else return false

/-- How `kill` is used. -/
def killUsage : String :=
  "Usage: kill [-s sigspec | -signum | -sigspec] [pid | job]... or\nkill -l [exitstatus]"

/-- The job that a percent sign and a text stand for. -/
def job? (st : State) (cs : Text) : Option Job :=
  match cs with
  | '%' :: rest =>
    if rest.isEmpty || rest == ['%'] || rest == ['+'] then st.jobs.getLast?
    else if isNatural rest then
      match valueOf rest with
      | 0 => none
      | n + 1 => st.jobs[n]?
    else none
  | _ => if isNatural cs then st.jobs.find? fun j => j.process == valueOf cs else none

/-- Sends signals to processes, or prints the names of signals. -/
def kill (args : List Text) : Run Nat := do
  let direct : Option Nat := match args with
    | ('-' :: name) :: _ => Signal.ofName? 1 name
    | _ => none
  let (signal, listing, targets) : Option Nat × Bool × List Text ← (
    match direct with
    | some n => pure (some n, false, args.tail)
    | none =>
      match args with
      | ('-' :: _) :: _ => do
        let (given, rest) ← options "l" "s" args
        let signals ← given.filterMapM fun o => do
          if o.1 != 's' then return none
          match Signal.ofName? 1 o.2 with
          | some n => return some n
          | none => Run.fail (lit "invalid signal number or name: " ++ o.2)
        pure (signals.getLast?, given.any fun o => o.1 == 'l', rest)
      | _ => pure (none, false, args))
  if listing then
    if signal.isSome then Run.fail (lit killUsage)
    match targets with
    | [] => do
      Run.print (lit "0\n")
      for n in (List.range Signal.limit).drop 1 do
        Run.print (lit ((Signal.name? n).getD "") ++ ['\n'])
      return 0
    | a :: _ => do
      let n ← Run.small a
      let n := if 128 < n then n - 128 else n
      match Signal.name? n with
      | some name =>
        if n = 0 then Run.fail (lit "invalid signal number or exit status: " ++ a)
        else do
          Run.print (lit name ++ ['\n'])
          return 0
      | none => Run.fail (lit "invalid signal number or exit status: " ++ a)
  else
    if targets.isEmpty then Run.fail (lit killUsage)
    let signal := signal.getD 15
    let mut status := 0
    for a in targets do
      let process ← (
        match a with
        | '%' :: _ => do
          match job? (← get) a with
          | some j => pure j.process
          | none => Run.fail (lit "No such job: " ++ a)
        | '-' :: rest => Run.small rest
        | _ => Run.small a)
      if !(← send signal process) then
        Run.warn (lit "No such process\n")
        status := 1
    return status

/-- Waits for the end of jobs. -/
def wait (args : List Text) : Run Nat := do
  let (_, args) ← options "" "" args
  let waitFor (j : Job) : Run Unit :=
    modify fun st => { st with elapsed := max st.elapsed j.finish }
  if args.isEmpty then
    for j in (← get).jobs do waitFor j
    modify fun st => { st with jobs := [] }
    return 0
  else
    let mut status := 0
    for a in args do
      match a with
      | '%' :: _ =>
        if (job? (← get) a).isNone then Run.fail (lit "No such job: " ++ a)
      | _ =>
        let _ ← Run.small a
      match job? (← get) a with
      | some j =>
        waitFor j
        status := j.status.shellCode
      | none => status := 127
    return status

/-! ### Names -/

/-- What a command's name stands for. -/
inductive Meaning
  | keyword
  | alias (text : Text)
  | function
  | special
  | builtin
  | program (p : Path) (known : Bool)
  | nothing

/-- What a command's name stands for on a search path; programs that were found are remembered. -/
def meaning (searchPath : Option (List Path)) (name : Text) : Run Meaning := do
  let st ← get
  let s := String.ofList name
  if Token.keywords.contains s then return .keyword
  else
    match st.aliases.lookup name with
    | some text => return .alias text
    | none =>
      if (st.functions.lookup name).isSome then return .function
      else if special.contains s then return .special
      else if names.contains s then return .builtin
      else
        match st.remembered.lookup name with
        | some p => return .program p true
        | none =>
          match Program.find st.files (searchPath.getD st.searchPath) (Text.toString name) with
          | .ok p => do
            if !name.contains '/' then
              modify fun st => { st with remembered := (name, p) :: st.remembered }
            return .program p false
          | .error _ => return .nothing

/-- Prints what a command's name stands for, at length or in brief. -/
def describe (searchPath : Option (List Path)) (verbose : Bool) (name : Text) : Run Nat := do
  let say (brief : Text) (long : String) : Run Nat := do
    Run.print ((if verbose then name ++ lit long else brief) ++ ['\n'])
    return 0
  match ← meaning searchPath name with
  | .keyword => say name " is a shell keyword"
  | .alias text => do
    Run.print (if verbose then name ++ lit " is an alias for " ++ text ++ ['\n']
      else lit "alias " ++ name ++ '=' :: quoted text ++ ['\n'])
    return 0
  | .function => say name " is a shell function"
  | .special => say name " is a special shell builtin"
  | .builtin => say name " is a shell builtin"
  | .program p known =>
    say (lit p.text) (if known then " is a tracked alias for " ++ p.text else " is " ++ p.text)
  | .nothing => do
    if verbose then Run.print (name ++ lit ": not found\n")
    return 127

/-- Describes commands. -/
def type (args : List Text) : Run Nat := do
  let mut status := 0
  for name in args do
    status := status ||| (← describe none true name)
  return status

/-- Where programs are looked for whatever the search path is. -/
def standardPath : List Path := [⟨"/usr/sbin"⟩, ⟨"/usr/bin"⟩, ⟨"/sbin"⟩, ⟨"/bin"⟩]

/-- Describes a command in place of running it. -/
def command (args : List Text) : Run Nat := do
  let (given, args) ← options "pvV" "" args
  let searchPath := if given.any fun o => o.1 == 'p' then some standardPath else none
  let verbose := given.any fun o => o.1 == 'V'
  if verbose || given.any fun o => o.1 == 'v' then
    match args with
    | name :: _ => describe searchPath verbose name
    | [] => return 0
  else return 0

/-- Remembers programs, or prints those that are remembered. -/
def hash (args : List Text) : Run Nat := do
  let (given, args) ← options "r" "" args
  if !given.isEmpty then
    modify fun st => { st with remembered := [] }
    return 0
  else if args.isEmpty then
    for (_, p) in (← get).remembered do
      Run.print (lit p.text ++ ['\n'])
    return 0
  else
    let mut status := 0
    for name in args do
      match ← meaning none name with
      | .nothing => do
        Run.warn (name ++ lit ": not found")
        status := 1
      | _ => status := status
    return status

/-- Sets or prints aliases. -/
def setAliases (args : List Text) : Run Nat := do
  let printAlias (name text : Text) : Run Unit := Run.print (name ++ '=' :: quoted text ++ ['\n'])
  if args.isEmpty then
    for (name, text) in (← get).aliases do printAlias name text
    return 0
  else
    let mut status := 0
    for a in args do
      match named a with
      | (name, some text) =>
        modify fun st => { st with aliases := st.aliases.filter (·.1 != name) ++ [(name, text)] }
      | (name, none) =>
        match (← get).aliases.lookup name with
        | some text => printAlias name text
        | none => do
          Run.complain (lit "alias: " ++ name ++ lit " not found")
          status := 1
    return status

/-- Forgets aliases. -/
def unalias (args : List Text) : Run Nat := do
  let (given, args) ← options "a" "" args
  if !given.isEmpty then
    modify fun st => { st with aliases := [] }
    return 0
  else
    let mut status := 0
    for name in args do
      if ((← get).aliases.lookup name).isSome then
        modify fun st => { st with aliases := st.aliases.filter (·.1 != name) }
      else do
        Run.complain (lit "unalias: " ++ name ++ lit " not found")
        status := 1
    return status

/-! ### Limits -/

/-- The letters of the permissions that a mask leaves to one class of users. -/
def permissions (mask : Nat) : Text :=
  let left := 7 - mask % 8
  (if left / 4 % 2 == 1 then ['r'] else []) ++ (if left / 2 % 2 == 1 then ['w'] else [])
    ++ (if left % 2 == 1 then ['x'] else [])

/-- Sets or prints the permissions that new files lack. -/
def umask (args : List Text) : Run Nat := do
  let (given, args) ← options "S" "" args
  let mask := (← get).fileMask
  match args with
  | [] => do
    let ds := Nat.toDigits 8 mask
    Run.print (if given.isEmpty then List.replicate (4 - ds.length) '0' ++ ds ++ ['\n']
      else lit "u=" ++ permissions (mask / 64) ++ lit ",g=" ++ permissions (mask / 8) ++ lit ",o="
        ++ permissions mask ++ ['\n'])
    return 0
  | a :: _ => do
    if (a.head?.map Char.isDigit).getD false then
      if a.all Escape.isOctal then modify fun st => { st with fileMask := valueIn 8 a % 512 }
      else Run.fail (lit "Illegal number: " ++ a)
    return 0

/-- Prints how much of a resource may be used. -/
def ulimit (args : List Text) : Run Nat := do
  let _ ← options "HSatfdscmlpnvwr" "" args
  Run.print (lit "unlimited\n")
  return 0

/-- Prints the time that was used. -/
def times : Run Nat := do
  let line : Text := lit "0m0.000000s 0m0.000000s\n"
  Run.print (line ++ line)
  return 0

/-- Reports that there is no job to go on with. -/
def resume (args : List Text) : Run Nat := do
  match args with
  | [] => Run.fail (lit "No current job")
  | a :: _ => Run.fail (lit "No such job: " ++ a)

/-! ### Control -/

/-- Leaves loops, or goes on with their next turn. -/
def leave (goesOn : Bool) (args : List Text) : Run Nat := do
  let n ← match args with
    | a :: _ => do
      let n ← Run.small a
      if n = 0 then Run.fail (lit "Illegal number: " ++ a)
      pure n
    | [] => pure 1
  let n := min n (← get).loops
  if n != 0 then
    modify fun st => { st with skip := some (if goesOn then .goOn n else .leave n) }
  return 0

/-- Leaves a function or a script. -/
def returnFrom (args : List Text) : Run Nat := do
  let status ← match args with
    | a :: _ => Run.small a
    | [] => do pure (← get).status
  modify fun st => { st with skip := some (.finish (!args.isEmpty)) }
  return status

/-- Ends the script. Without an argument the status stays; where a command is run on a signal or
at the end, that is the status before it. -/
def exit (args : List Text) : Run Nat := do
  let status ← match args with
    | a :: _ => Run.small a
    | [] => do pure ((← get).beforeTrap.getD (← get).status)
  Run.stop status .exit

/-- Runs a command of the shell that needs no script. -/
def run? (name : String) (args : List Text) : Option (Run Nat) :=
  match name with
  | ":" | "true" => some (return 0)
  | "false" => some (return 1)
  | "break" => some (leave false args)
  | "continue" => some (leave true args)
  | "exit" => some (exit args)
  | "return" => some (returnFrom args)
  | "export" | "readonly" => some (mark (name == "readonly") name args)
  | "local" => some (makeLocal args)
  | "set" => some (set args)
  | "shift" => some (shift args)
  | "times" => some times
  | "trap" => some (trap args)
  | "unset" => some (unset args)
  | "test" => some (Condition.run false args)
  | "[" => some (Condition.run true args)
  | "alias" => some (setAliases args)
  | "unalias" => some (unalias args)
  | "bg" | "fg" => some (resume args)
  | "cd" | "chdir" => some (cd args)
  | "command" => some (command args)
  | "echo" => some (echo args)
  | "printf" => some (printf args)
  | "getopts" => some (getopts args)
  | "hash" => some (hash args)
  | "jobs" => some (return 0)
  | "kill" => some (kill args)
  | "pwd" => some (pwd args)
  | "read" => some (read args)
  | "type" => some (type args)
  | "ulimit" => some (ulimit args)
  | "umask" => some (umask args)
  | "wait" => some (wait args)
  | _ => none

end Builtin
end IncrementalBuild.Shell
