import IncrementalBuild.Host.Shell.Builtins
import IncrementalBuild.Host.Shell.Printing
import IncrementalBuild.Host.Shell.Tool.Options
/-!
# Tools that start programs

The tools that start other programs, wait, or send signals.

## Main definitions

* `Shell.Launch` — how a tool starts a program.
* `Shell.Tool.env`, `Shell.Tool.nice`, `Shell.Tool.nohup`, `Shell.Tool.timeout` — start one program
  under other conditions, and end as it ends.
* `Shell.Tool.xargs` — starts programs with arguments that it reads.
* `Shell.Tool.sleep`, `Shell.Tool.kill`.

Each returns its status.
-/

namespace IncrementalBuild.Shell

/-- How a tool starts another program, given its name and arguments, and waits for it. -/
abbrev Launch := List Text → Run (Except FileError ExitStatus)

namespace Tool

/-- The status of a tool that could not start a program. -/
def launchFailure (e : FileError) : Nat := if e == .notFound then 127 else 126

/-- Ends as a program has ended. -/
def endAs (ending : ExitStatus) : Run Nat := do
  match ending with
  | .code n => return n
  | .signal n => throw (.killed n)

/-- Starts a program in the place of the tool. -/
def become (launch : Launch) (complaint : String) (command : List Text) : Run Nat := do
  match ← launch command with
  | .ok ending => endAs ending
  | .error e => do
    complain (lit complaint ++ inQuotes (command.headD []) ++ lit ": " ++ cause e)
    return launchFailure e

/-! ### Conditions of a program -/

/-- The name and the value of an argument that sets a variable. -/
def setting? (a : Text) : Option (Text × Text) :=
  let name := a.takeWhile (· != '=')
  if name.length < a.length then some (name, a.drop (name.length + 1)) else none

/-- Runs a program with other variables, or prints the variables. -/
def env (launch : Launch) (args : List Text) : Run Nat := do
  let switches : List Switch :=
    [⟨'i', "ignore-environment", .nothing⟩, ⟨'0', "null", .nothing⟩, ⟨'u', "unset", .argument⟩,
     ⟨'S', "split-string", .argument⟩, ⟨'v', "debug", .nothing⟩]
  let (given, operands) ← optionsBefore 125 switches args
  let split := (given.filter fun o => o.1 == 'S').flatMap fun o =>
    (Text.splitAt ' ' (o.2.map fun c => if c == '\t' then ' ' else c)).filter (!·.isEmpty)
  let operands := split ++ operands
  let (alone, operands) := match operands with
    | ['-'] :: rest => (true, rest)
    | _ => (false, operands)
  if alone || given.has 'i' then modify fun st => { st with bindings := [] }
  for (letter, name) in given do
    if letter == 'u' then
      if name.isEmpty || name.contains '=' then
        stop 125 (lit "cannot unset " ++ inQuotes name ++ lit ": Invalid argument")
      modify fun st => { st with bindings := st.bindings.filter (·.1 != name) }
  let settings := (operands.takeWhile fun a => (setting? a).isSome).filterMap setting?
  for (name, value) in settings do
    modify fun st => st.putVariable name { value := some value, exported := true }
  match operands.drop settings.length with
  | [] => do
    let ending := if given.has '0' then ['\x00'] else ['\n']
    let all := (← get).environment.reverse
    Run.print (all.flatMap fun v => v.1 ++ '=' :: v.2 ++ ending)
    return 0
  | command =>
    if given.has '0' then misused 125 (lit "cannot specify --null (-0) with command")
    else become launch "" command

/-- Prints values of variables. -/
def printenv (args : List Text) : Run Nat := do
  let (_, names) ← options 2 [⟨'0', "null", .nothing⟩] args
  let st ← get
  if names.isEmpty then
    Run.print (st.environment.reverse.flatMap fun v => v.1 ++ '=' :: v.2 ++ ['\n'])
    return 0
  let values := names.map fun name => st.environment.lookup name
  for v in values do
    if let some text := v then Run.print (text ++ ['\n'])
  return if values.all Option.isSome then 0 else 1

/-- Runs a program with another priority. -/
def nice (launch : Launch) (args : List Text) : Run Nat := do
  -- A number may stand where a letter is expected.
  let args := match args with
    | ('-' :: c :: cs) :: rest =>
      if (c :: cs).all Char.isDigit then lit "-n" :: (c :: cs) :: rest else args
    | _ => args
  let (given, command) ← optionsBefore 125 [⟨'n', "adjustment", .argument⟩] args
  if let some n := given.value? 'n' then
    if (integer? false n).isNone then stop 125 (lit "invalid adjustment " ++ inQuotes n)
  if command.isEmpty then
    Run.print (lit "0\n")
    return 0
  else become launch "" command

/-- Runs a program that is not ended by a hangup. -/
def nohup (launch : Launch) (args : List Text) : Run Nat := do
  let (_, command) ← optionsBefore 125 [] args
  if command.isEmpty then misused 125 (lit "missing operand")
  modify fun st => { st with traps := (1, []) :: st.traps.filter (·.1 != 1) }
  become launch "failed to run command " command

/-! ### Time -/

/-- The milliseconds that a text says, as a number that may have a unit of time. -/
def duration? (cs : Text) : Option Nat :=
  let (digits, unit) : Text × Nat := match cs.getLast? with
    | some 's' => (cs.dropLast, 1)
    | some 'm' => (cs.dropLast, 60)
    | some 'h' => (cs.dropLast, 3600)
    | some 'd' => (cs.dropLast, 86400)
    | _ => (cs, 1)
  let r := Real.read digits
  match r.value.magnitude with
  | .finite f =>
    if !r.found || !r.rest.isEmpty || r.value.negative then none
    else some (f.numerator * 1000 * unit / f.denominator)
  | _ => none

/-- The milliseconds that an argument has to say. -/
def duration (status : Nat) (cs : Text) : Run Nat :=
  match duration? cs with
  | some n => return n
  | none => misused status (lit "invalid time interval " ++ inQuotes cs)

/-- Waits. -/
def sleep (args : List Text) : Run Nat := do
  let (_, operands) ← options 1 [] args
  if operands.isEmpty then misused 1 (lit "missing operand")
  for a in operands do
    let n ← duration 1 a
    modify fun st => { st with elapsed := st.elapsed + n }
  return 0

/-- Runs a program that is ended after some time. -/
def timeout (launch : Launch) (args : List Text) : Run Nat := do
  let (given, operands) ← optionsBefore 125
    [⟨'s', "signal", .argument⟩, ⟨'k', "kill-after", .argument⟩,
     ⟨'p', "preserve-status", .nothing⟩, ⟨'f', "foreground", .nothing⟩,
     ⟨'v', "verbose", .nothing⟩] args
  let signal ← match given.value? 's' with
    | none => pure 15
    | some name =>
      let bare := if (lit "SIG").isPrefixOf name then name.drop 3 else name
      match Signal.ofName? 1 bare with
      | some n => pure n
      | none => misused 125 (inQuotes name ++ lit ": invalid signal")
  match operands with
  | [] | [_] => do
    Run.complain (lit "Try '" ++ (← get).zero ++ lit " --help' for more information.")
    return 125
  | time :: command => do
    let limit ← duration 125 time
    let start := (← get).elapsed
    match ← launch command with
    | .error e => do
      complain (lit "failed to run command " ++ inQuotes (command.headD []) ++ lit ": " ++ cause e)
      return launchFailure e
    | .ok ending => do
      if 0 < limit && start + limit < (← get).elapsed then
        modify fun st => { st with elapsed := start + limit }
        if signal == 9 then throw (.killed 9)
        return if given.has 'p' then 128 + signal else 124
      endAs ending

/-! ### Signals -/

/-- Sends a signal to processes, or names signals. -/
def kill (args : List Text) : Run Nat := do
  let (signal, operands) ← match args with
    | ['-', 'l'] :: names => do
      for name in names do
        let bare := if (lit "SIG").isPrefixOf name then name.drop 3 else name
        match Signal.ofName? 1 bare with
        | some n =>
          let text := if isNatural name then lit ((Signal.name? n).getD "") else Text.ofNat n
          Run.print (text ++ ['\n'])
        | none => stop 1 (lit "unknown signal name " ++ name)
      Run.stop 0 .exit
    | ['-', 's'] :: name :: rest => pure (Signal.ofName? 1 name, rest)
    | ('-' :: name) :: rest => pure (Signal.ofName? 1 name, rest)
    | rest => pure (some 15, rest)
  let mut status := 0
  for a in operands do
    if !isNatural a then stop 1 (lit "failed to parse argument: " ++ inQuotes a)
    match signal with
    | none =>
      complain (lit "(" ++ a ++ lit "): Invalid argument")
      status := 1
    | some n =>
      if !(← Builtin.send n (valueOf a)) then
        complain (lit "(" ++ a ++ lit "): No such process")
        status := 1
  return status

/-! ### Arguments that are read -/

/-- An argument that was read, and whether a line ends behind it. -/
abbrev ReadArgument := Text × Bool

/-- Splits a text into arguments. Blanks separate them, or, where `byLines` says so, line ends
alone; quotes and backslashes keep such characters. `current` is the argument in progress, in
reverse, and `quote` the quote that is open. The other result is what is wrong, if anything. -/
def readArguments (byLines : Bool) (quote : Option Char) (current : Option Text) :
    Text → List ReadArgument × Option String
  | [] =>
    match quote with
    | some q =>
      ([], some ("unmatched " ++ (if q == '"' then "double" else "single")
        ++ " quote; by default quotes are special to xargs unless you use the -0 option"))
    | none => ((current.map fun cs => (cs.reverse, true)).toList, none)
  | '\\' :: c :: rest =>
    if quote.isNone then readArguments byLines none (some (c :: current.getD [])) rest
    else readArguments byLines quote (some ('\\' :: current.getD [])) (c :: rest)
  | c :: rest =>
    match quote with
    | some q =>
      if c == '\n' then readArguments byLines quote current []
      else if c == q then readArguments byLines none current rest
      else readArguments byLines quote (some (c :: current.getD [])) rest
    | none =>
      if c == '"' || c == '\'' then
        readArguments byLines (some c) (some (current.getD [])) rest
      else if c == '\n' || (!byLines && (c == ' ' || c == '\t')) then
        let (more, wrong) := readArguments byLines none none rest
        ((current.map fun cs => (cs.reverse, c == '\n')).toList ++ more, wrong)
      else if byLines && current.isNone && (c == ' ' || c == '\t') then
        readArguments byLines none none rest
      else readArguments byLines none (some (c :: current.getD [])) rest
termination_by cs => cs.length

/-- Cuts arguments into groups of so many. -/
def groupsOf (size : Nat) : Nat → List Text → List (List Text)
  | 0, _ | _, [] => []
  | fuel + 1, all => all.take size :: groupsOf size fuel (all.drop size)

/-- Cuts arguments into groups of so many lines. -/
def groupsOfLines (size : Nat) : (lines : Nat) → List Text → List ReadArgument → List (List Text)
  | _, group, [] => if group.isEmpty then [] else [group.reverse]
  | lines, group, (a, ends) :: rest =>
    let lines := if ends then lines + 1 else lines
    if size ≤ lines then (a :: group).reverse :: groupsOfLines size 0 [] rest
    else groupsOfLines size lines (a :: group) rest

/-- A text with another one put in for a mark. -/
def substituted (mark value : Text) : (skip : Nat) → Text → Text
  | _, [] => []
  | skip + 1, _ :: rest => substituted mark value skip rest
  | 0, c :: rest =>
    if !mark.isEmpty && mark.isPrefixOf (c :: rest) then
      value ++ substituted mark value (mark.length - 1) rest
    else c :: substituted mark value 0 rest

/-- The number that an option of `xargs` asks for. -/
def positive (given : Given) (letter : Char) : Run (Option Nat) := do
  match given.value? letter with
  | none => return none
  | some cs =>
    if !isNatural cs then
      misused 1 (lit "invalid number \"" ++ cs ++ lit "\" for -" ++ [letter] ++ lit " option")
    else if valueOf cs = 0 then
      misused 1 (lit "value " ++ cs ++ lit " for -" ++ [letter] ++ lit " option should be >= 1")
    else return some (valueOf cs)

/-- Starts programs one after the other. -/
def launchAll (launch : Launch) (shows : Bool) (status : Nat) : List (List Text) → Run Nat
  | [] => return status
  | command :: rest => do
    let name := command.headD []
    if shows then Run.complain (Text.joinWith [' '] (command.map quoted))
    match ← launch command with
    | .error e => do
      complain (name ++ lit ": " ++ cause e)
      return launchFailure e
    | .ok (.code 0) => launchAll launch shows status rest
    | .ok (.code 255) => do
      complain (name ++ lit ": exited with status 255; aborting")
      return 124
    | .ok (.code _) => launchAll launch shows 123 rest
    | .ok (.signal n) => do
      complain (name ++ lit ": terminated by signal " ++ Text.ofNat n)
      return 125

/-- Starts programs with arguments that are read. -/
def xargs (launch : Launch) (args : List Text) : Run Nat := do
  let (given, command) ← optionsBefore 1
    [⟨'0', "null", .nothing⟩, ⟨'a', "arg-file", .argument⟩, ⟨'d', "delimiter", .argument⟩,
     ⟨'E', "", .argument⟩, ⟨'I', "", .argument⟩, ⟨'i', "replace", .attached⟩,
     ⟨'L', "max-lines", .argument⟩, ⟨'n', "max-args", .argument⟩, ⟨'P', "max-procs", .argument⟩,
     ⟨'r', "no-run-if-empty", .nothing⟩, ⟨'s', "max-chars", .argument⟩,
     ⟨'t', "verbose", .nothing⟩, ⟨'x', "exit", .nothing⟩] args
  let size ← positive given 'n'
  let lineSize ← positive given 'L'
  let mark := match given.last? ['I', 'i'] with
    | some letter =>
      let text := (given.value? letter).getD []
      some (if text.isEmpty then ['\x7b', '\x7d'] else text)
    | none => none
  let input ← match given.value? 'a' with
    | some name => do
      match ← contents name with
      | .ok cs => pure cs
      | .error e =>
        stop 1 (lit "Cannot open input file " ++ inQuotes name ++ lit ": " ++ cause e)
    | none => modifyGet fun st => st.readAll 0
  let separator : Option Char := match given.last? ['0', 'd'] with
    | some '0' => some '\x00'
    | some _ =>
      let cs := (given.value? 'd').getD []
      match cs with
      | '\\' :: rest => some (Escape.one true rest).1
      | c :: _ => some c
      | [] => none
    | none => none
  let (all, wrong) : List ReadArgument × Option String := match separator with
    | some c =>
      let parts := Text.splitAt c input
      let parts := if parts.getLast? == some [] then parts.dropLast else parts
      (parts.map fun a => (a, true), none)
    | none => readArguments mark.isSome none none input
  let all := match given.value? 'E' with
    | some last => all.takeWhile fun a => last.isEmpty || a.1 != last
    | none => all
  let command := if command.isEmpty then [lit "echo"] else command
  let commands := match mark with
    | some m => all.map fun a => command.head?.toList ++ command.tail.map (substituted m a.1 0)
    | none =>
      let groups := match lineSize, size with
        | some n, _ => groupsOfLines n 0 [] all
        | none, some n => groupsOf n (all.length + 1) (all.map Prod.fst)
        | none, none => if all.isEmpty then [] else [all.map Prod.fst]
      let groups := if groups.isEmpty && !given.has 'r' && wrong.isNone then [[]] else groups
      groups.map fun group => command ++ group
  -- What is started reads nothing of the input.
  modify fun st => st.openAs 0 .null
  let status ← launchAll launch (given.has 't') 0 commands
  match wrong with
  | some message => stop 1 (lit message)
  | none => return status

end Tool
end IncrementalBuild.Shell
