import IncrementalBuild.Host.Shell.Arithmetic
import IncrementalBuild.Host.Shell.Expansion
import IncrementalBuild.Host.Shell.Tools
/-!
# Evaluation

The shell at work: words are expanded, redirections opened, commands looked up and run, in this
process or in a copy of it.

## Main definitions

* `Shell.fields`, `Shell.textOf`, `Shell.markedOf` — what a word expands to.
* `Shell.inCopy` — runs steps in a copy of the process.
* `Shell.evaluate` — runs a command.
* `Shell.runText` — reads and runs a script.
* `Shell.runProgram` — starts a program in the place of the process.

## Conventions

Words and commands contain each other, and scripts start scripts, so all of this is one group of
functions. Each call uses up one unit of `fuel`, which bounds how deep calls are nested; how often
loops turn is bounded apart from it. A process that uses up either ends with status 255.

A command is told whether its failure is looked at by the script (`tested`), since failures that
are not may end the script, and whether it is the last thing the process does (`last`).
-/

namespace IncrementalBuild.Shell

/-! ### Steps -/

/-- Runs steps and then, however they end, restores part of the state. -/
def Run.restoring {α : Type} (restore : State → State) (steps : Run α) : Run α :=
  ExceptT.mk fun st =>
    let (r, st) := steps.run st
    (r, restore st)

/-- Repeats a step as long as it says how to go on, at most so many times. -/
def Run.repeating {α β : Type} (step : α → Run (α ⊕ β)) : Nat → α → Run β
  | 0, _ => Run.stop 255 .exit
  | n + 1, a => do
    match ← step a with
    | .inl next => repeating step n next
    | .inr result => return result

/-- How often a loop may turn. -/
def turnLimit : Nat := 1000000

/-! ### Processes -/

/-- Whether commands are to be run on signals or at the end. -/
def State.hasTraps (st : State) : Bool := st.traps.any fun t => !t.2.isEmpty

/-- The signals that a new process goes on to ignore. -/
def State.ignored (st : State) : List (Nat × Text) := st.traps.filter fun t => t.2.isEmpty

/-- The state that a copy of the process starts with. -/
def State.copy (st : State) : State :=
  { st with
    self := st.nextProcess
    ancestors := st.self :: st.ancestors
    nextProcess := st.nextProcess + 1
    traps := st.ignored
    arrived := []
    skip := none
    jobs := [] }

/-- What a process leaves to the one that has started it. -/
def State.after (st child : State) : State :=
  { st with
    files := { child.files with workDir := st.files.workDir }
    names := child.names
    opened := child.opened.filter fun f => f.1 < st.nextOpened
    nextProcess := child.nextProcess
    posted := child.posted
    elapsed := child.elapsed }

/-- Takes in the signals that were sent to this process while it waited. -/
def receivePosted : Run Unit := do
  let st ← get
  let mine := st.posted.filter fun p => p.1 == st.self
  if !mine.isEmpty then
    modify fun st => { st with posted := st.posted.filter fun p => p.1 != st.self }
    for (_, signal) in mine do Builtin.receive signal

/-- Runs steps in a copy of the process: how it ends, and the state it ends in. -/
def inCopy (prepare : State → State) (steps : Run Unit) : Run (ExitStatus × State) := do
  let st ← get
  let (r, child) := steps.run (prepare st.copy)
  let ending : ExitStatus := match r with
    | .error (.killed n) => .signal n
    | _ => .code (child.status % 256)
  modify fun st => st.after child
  receivePosted
  return (ending, child)

/-- Tells of a process that a signal has ended. -/
def report (ending : ExitStatus) : Run Unit := do
  match ending with
  | .signal n => if n != 2 && n != 13 then Run.complain (lit (Signal.description n))
  | .code _ => return ()

/-- Sets the status. -/
def setStatus (n : Nat) : Run Unit := modify fun st => { st with status := n }

/-- Sets the number of the line that messages name. -/
def setLine (n : Nat) : Run Unit := modify fun st => { st with line := n }

/-- The variables that are set in every shell. -/
def State.withShellVariables (st : State) : State :=
  let plain (st : State) (name value : Text) : State :=
    st.putVariable name { value := some value }
  let st := plain st (lit "IFS") [' ', '\t', '\n']
  let st := plain st (lit "OPTIND") ['1']
  let st := plain st (lit "PPID") (Text.ofNat (st.ancestors.headD 1))
  let st := plain st (lit "PS1") (lit "# ")
  let st := plain st (lit "PS2") (lit "> ")
  let st := plain st (lit "PS4") (lit "+ ")
  st.putVariable (lit "PWD") { value := some (Builtin.textOf st.files.workDir), exported := true }

/-- The state that a program starts with: of the variables it gets the exported ones. -/
def State.forProgram (st : State) (zero : Text) : State :=
  { files := st.files
    names := st.names
    bindings := st.bindings.filter fun v => v.2.exported && v.2.value.isSome
    zero
    traps := st.ignored
    opened := st.opened
    nextOpened := st.nextOpened
    descriptors := st.descriptors
    process := st.self
    self := st.self
    ancestors := st.ancestors
    posted := st.posted
    nextProcess := st.nextProcess
    elapsed := st.elapsed
    fileMask := st.fileMask }

/-! ### Redirections -/

/-- A redirection with its word expanded. -/
structure Target where
  descriptor : Nat
  direction : Direction
  text : Text

/-- Fails because a file could not be opened. -/
def cannot (purpose : Purpose) (p : Text) (e : FileError) : Run Unit :=
  let verb := match purpose with
    | .reading => "cannot open "
    | _ => "cannot create "
  Run.fail (lit verb ++ p ++ lit ": " ++ describe purpose e)

/-- Opens the file of a redirection for writing. -/
def openTarget (t : Target) (how : State.Opening) : Run Unit := do
  match (← get).openOutput t.descriptor how t.text with
  | .ok st => set st
  | .error e => cannot .creating t.text e

/-- Lets descriptors lead where redirections say, except for texts of the script. -/
def redirectTo (t : Target) : Run Unit := do
  match t.direction with
  | .input =>
    match (← get).openInput t.descriptor t.text with
    | .ok st => set st
    | .error e => cannot .reading t.text e
  | .output => openTarget t (if (← get).options.contains 'C' then .fresh else .over)
  | .outputOver => openTarget t .over
  | .appendTo => openTarget t .atEnd
  | .inputOutput => openTarget t .kept
  | .duplicate _ =>
    match t.text with
    | ['-'] => modify fun st => st.close t.descriptor
    | [c] =>
      if c.isDigit then
        let n := valueOf [c]
        if ((← get).target? n).isSome then modify fun st => st.duplicate t.descriptor n
        else Run.fail (Text.ofNat n ++ lit ": Bad file descriptor")
      else Run.fail (lit "Syntax error: Bad fd number")
    | _ => Run.fail (lit "Syntax error: Bad fd number")
  | .document _ => modify fun st => st.openAs t.descriptor (.source t.text false)

/-! ### Looking up commands -/

/-- What is run under a name. -/
inductive Callable
  | function (body : Command)
  | builtin (name : String)
  | program
  | nothing (e : FileError)

/-- What is run under a name; functions may be left out. -/
def callable (searchPath : List Path) (withoutFunctions : Bool) (name : Text) : Run Callable := do
  let st ← get
  if name.contains '/' then return .program
  else
    match (if withoutFunctions then none else st.functions.lookup name) with
    | some body => return .function body
    | none =>
      let s := String.ofList name
      if Builtin.names.contains s then return .builtin s
      else if name.isEmpty then return .nothing .permissionDenied
      else
        match Program.find st.files searchPath (Text.toString name) with
        | .ok p => do
          modify fun st => { st with
            remembered := (name, p) :: st.remembered.filter (·.1 != name) }
          return .program
        | .error e => return .nothing e

/-- The path a program is started by. -/
def pathOf (searchPath : List Path) (name : Text) : Run (Except FileError Path) := do
  let st ← get
  return Program.find st.files searchPath (Text.toString name)

/-- Fails because a program could not be started, after which the process ends. -/
def cannotRun {α : Type} (name : Text) (e : FileError) : Run α := do
  Run.warn (name ++ lit ": " ++ describe .running e)
  let missing := match e with
    | .notFound | .notADirectory | .nameTooLong => true
    | _ => false
  Run.stop (if missing then 127 else 126) .exit

/-- Leaves a loop turn: what is skipped, if anything. -/
def leaveTurn : Run (Option Skip) := do
  let st ← get
  match st.skip with
  | some (.leave n) => do
    set { st with skip := if n ≤ 1 then none else some (.leave (n - 1)) }
    return some (.leave n)
  | some (.goOn n) =>
    if n ≤ 1 then do
      set { st with skip := none }
      return some (.goOn n)
    else do
      set { st with skip := some (.goOn (n - 1)) }
      return some (.leave n)
  | other => return other

/-- Whether a word of a command is an assignment. -/
def isAssignment (w : Word) : Bool := w.assignment?.isSome

/-- The name of the shell that runs scripts without an interpreter of their own. -/
def shellPath : Text := lit "/bin/sh"

/-! ### The group -/

mutual

/-- The segments that a word expands to. -/
def segments : Nat → Manner → Word → Run (List Segment)
  | 0, _, _ => Run.stop 255 .exit
  | fuel + 1, m, w => do
    let x ← w.foldlM (fun (x : Expansion) piece => do
      match piece with
      | .character c quoted =>
        return x.literal (.character c quoted)
          (if m.inBraces && !quoted then .atSeparators else .never)
      | .mark => return x.literal .quote .never
      | .parameter name use quoted => return x.add (← parameter fuel m name use quoted)
      | .output body quoted => return x.add [Segment.ofValue quoted (← capture fuel body)]
      | .arithmetic body quoted =>
        return x.add [Segment.ofValue quoted (← arithmetic fuel body)]) {}
    return x.segments

/-- The segments of a parameter's value, or of what stands for it. -/
def parameter : Nat → Manner → Text → Use → (quoted : Bool) → Run (List Segment)
  | 0, _, _, _, _ => Run.stop 255 .exit
  | fuel + 1, m, name, use, quoted => do
    let value ← do pure ((← get).valueSegment? m name quoted)
    let isMissing (alsoEmpty : Bool) : Bool :=
      match value with
      | some s => alsoEmpty && s.marks.isEmpty
      | none => true
    let present : Run Segment := do
      match value with
      | some s => return s
      | none =>
        if (← get).options.contains 'u' then Run.fail (name ++ lit ": parameter not set")
        else return Segment.ofValue quoted []
    let other (word : Word) : Run (List Segment) := do
      let word := word.withHomes (← get) .atStart
      segments fuel { m with inBraces := !quoted } word
    match use with
    | .plain => return [← present]
    | .length => do
      let s ← present
      return [Segment.ofValue quoted (Text.ofNat s.marks.length)]
    | .trim atEnd longest pattern => do
      let s ← present
      let pattern ← markedOf fuel pattern
      let cs := Glob.trim atEnd longest (Glob.ofMarked pattern) s.marks.text
      return [{ s with marks := Marked.ofText quoted cs }]
    | .orElse alsoEmpty word =>
      if isMissing alsoEmpty then other word else return value.toList
    | .instead alsoEmpty word => if isMissing alsoEmpty then return [] else other word
    | .assign alsoEmpty word =>
      if isMissing alsoEmpty then do
        let cs ← textOf fuel .atStart word
        Run.assign name cs
        return ((← get).valueSegment? m name quoted).toList
      else return value.toList
    | .require alsoEmpty word =>
      if isMissing alsoEmpty then
        if word.isEmpty then
          Run.fail (name ++ lit (if alsoEmpty then ": parameter not set or null"
            else ": parameter not set"))
        else do
          let cs ← textOf fuel .atStart word
          Run.fail (name ++ lit ": " ++ cs)
      else return value.toList
    | .unknown => Run.fail (lit "Bad substitution")

/-- The value of an arithmetic expression. -/
def arithmetic : Nat → Word → Run Text
  | 0, _ => Run.stop 255 .exit
  | fuel + 1, body => do
    let cs ← textOf fuel .nowhere body
    let st ← get
    match Arithmetic.value st.value? cs with
    | .ok (n, assigned) => do
      for (name, value) in assigned do Run.assign name (Text.ofInt value)
      return Text.ofInt n
    | .error (.notANumber value) => Run.fail (lit "Illegal number: " ++ value)
    | .error (.expression reason) =>
      Run.fail (lit ("arithmetic expression: " ++ reason ++ ": \"") ++ cs ++ ['"'])

/-- The output of a command that is run in a copy of the shell, without the line ends at its
end. -/
def capture : Nat → Command → Run Text
  | 0, _ => Run.stop 255 .exit
  | fuel + 1, body => do
    match body with
    | .nothing => return []
    | _ => do
      let number := (← get).nextOpened
      let (ending, child) ← inCopy State.collect (toEnd fuel (evaluate fuel false true body))
      report ending
      modify fun st => { st with outputStatus := ending.shellCode }
      return Text.dropLastLines ((child.collected number).filter (· != Fields.nul))

/-- The text that a word expands to where it is not split. -/
def textOf : Nat → Tildes → Word → Run Text
  | 0, _, _ => Run.stop 255 .exit
  | fuel + 1, tildes, w => do
    let all ← segments fuel { splits := false } (w.withHomes (← get) tildes)
    return all.flatMap fun s => s.marks.text

/-- What a pattern expands to. -/
def markedOf : Nat → Word → Run Marked
  | 0, _ => Run.stop 255 .exit
  | fuel + 1, w => do
    let all ← segments fuel { splits := false } (w.withHomes (← get) .atStart)
    return all.flatMap (·.marks)

/-- The fields that a word expands to. -/
def fields : Nat → Word → Run (List Text)
  | 0, _ => Run.stop 255 .exit
  | fuel + 1, w => do
    let word := (w.withoutArgumentMarks false).withHomes (← get) .atStart
    let all ← segments fuel { splits := true } word
    let st ← get
    return (Fields.split st.separators all).flatMap fun field =>
      if st.options.contains 'f' then [field.text] else Fields.names st.files field

/-- The fields of the first of several words that has any, and the words after it. -/
def firstFields : Nat → List Word → Run (List Text × List Word)
  | 0, _ => Run.stop 255 .exit
  | _ + 1, [] => return ([], [])
  | fuel + 1, w :: rest => do
    match ← fields fuel w with
    | [] => firstFields fuel rest
    | found => return (found, rest)

/-- The command behind `command` and its options, with the words that are still to be expanded
and whether programs are looked for in the usual places; none if there is no such command. The
fields behind `command` so far are given. -/
def behindCommand : Nat → List Text → List Word → (usual : Bool) →
    Run (Option (List Text × List Word × Bool) × List Text × List Word)
  | 0, _, _, _ => Run.stop 255 .exit
  | fuel + 1, found, rest, usual => do
    let (found, rest) ← if found.isEmpty then firstFields fuel rest else pure (found, rest)
    match found with
    | [] => return (none, found, rest)
    | ['-', '-'] :: more => do
      let (more, rest) ← if more.isEmpty then firstFields fuel rest else pure (more, rest)
      if more.isEmpty then return (none, found, rest)
      else return (some (more, rest, usual), found, rest)
    | ('-' :: c :: letters) :: more =>
      if (c :: letters).all (· == 'p') then do
        let (next, after, rest) ← behindCommand fuel more rest true
        return (next, ('-' :: c :: letters) :: after, rest)
      else return (none, found, rest)
    | _ => return (some (found, rest, usual), found, rest)

/-- The words of redirections, expanded. -/
def targets : Nat → List Redirection → Run (List Target)
  | 0, _ => Run.stop 255 .exit
  | fuel + 1, all =>
    all.mapM fun r =>
      match r with
      | .mk descriptor direction word => do
        match direction with
        | .document _ => return ⟨descriptor, direction, []⟩
        | .duplicate _ =>
          match ← fields fuel word with
          | cs :: _ => return ⟨descriptor, direction, cs⟩
          | [] => Run.fail (lit "redir error")
        | _ => return ⟨descriptor, direction, ← textOf fuel .atStart word⟩

/-- Opens the files of redirections; whether all could be opened. -/
def redirect : Nat → List Target → Run Bool
  | 0, _ => Run.stop 255 .exit
  | fuel + 1, all =>
    tryCatch (do
      for t in all do
        match t.direction with
        | .document number => do
          let word := ((← get).documents.lookup number).getD []
          let cs ← textOf fuel .nowhere word
          redirectTo { t with text := cs }
        | _ => redirectTo t
      return true) fun e => do
        match e with
        | .failure => return false
        | _ => throw e

/-- Runs the commands for the signals that have arrived. -/
def answerSignals : Nat → Run Unit
  | 0 => return
  | fuel + 1 => do
    let st ← get
    if st.arrived.isEmpty || st.skip.isSome then return
    let before := st.beforeTrap
    let status := before.getD st.status
    let signals := st.arrived.mergeSort fun a b => a ≤ b
    set { st with arrived := [], beforeTrap := some status }
    for signal in signals do
      match (← get).traps.lookup signal with
      | some action => do
        let _ ← runText fuel action false
        let chosen := (← get).skip == some (.finish true)
        if !chosen then setStatus status
      | none => pure ()
    modify fun st => { st with beforeTrap := before }

/-- Runs the command for the end of the script. -/
def atEnd : Nat → Run Unit
  | 0 => return
  | fuel + 1 => do
    let st ← get
    match st.traps.lookup 0 with
    | none => return
    | some action => do
      let status := st.status
      set { st with
        traps := st.traps.filter (·.1 != 0), skip := none, command := none
        beforeTrap := some status }
      let ended ← tryCatch (do
        let _ ← runText fuel action false
        return true) fun e => do
          match e with
          | .killed _ => throw e
          | _ => return false
      if ended then setStatus status

/-- Runs steps up to the end of the process, with the command for its end. -/
def toEnd : Nat → Run Unit → Run Unit
  | 0, _ => Run.stop 255 .exit
  | fuel + 1, steps => do
    tryCatch steps fun e => do
      match e with
      | .killed _ => throw e
      | _ => return
    atEnd fuel

/-- Runs a command. -/
def evaluate : Nat → (tested last : Bool) → Command → Run Unit
  | 0, _, _, _ => Run.stop 255 .exit
  | fuel + 1, tested, last, c => do
    if (← get).options.contains 'n' then return
    answerSignals fuel
    let checked ← match c with
      | .nothing => pure false
      | .simple line assignments words redirections => do
        simple fuel tested last line assignments words redirections
        pure true
      | .redirected line body redirections => do
        setLine line
        let all ← targets fuel redirections
        let before := (← get).descriptors
        Run.restoring (fun st => { st with descriptors := before }) do
          if ← redirect fuel all then evaluate fuel tested false body
          else setStatus 2
        pure false
      | .apart line body redirections => do
        setLine line
        let all ← targets fuel redirections
        let inside : Run Unit := do
          if ← redirect fuel all then evaluate fuel tested true body
          else Run.stop 2 .failure
        if last && !(← get).hasTraps then do
          inside
          throw .exit
        else do
          let (ending, _) ← inCopy id (toEnd fuel inside)
          report ending
          setStatus ending.shellCode
        pure true
      | .background line body redirections => do
        setLine line
        let all ← targets fuel redirections
        let before := (← get).elapsed
        let (ending, child) ← inCopy (fun st => st.openAs 0 .null) (toEnd fuel do
          if ← redirect fuel all then evaluate fuel false true body
          else Run.stop 2 .failure)
        modify fun st => { st with
          jobs := st.jobs ++ [⟨child.self, ending, child.elapsed⟩]
          lastJob := some child.self
          elapsed := before
          status := 0 }
        pure true
      | .pipe stages => do
        pipeline fuel tested stages
        pure true
      | .sequence first second => do
        evaluate fuel tested false first
        if (← get).skip.isNone then evaluate fuel tested last second
        pure false
      | .both first second => do
        evaluate fuel true false first
        let st ← get
        if st.status == 0 && st.skip.isNone then evaluate fuel tested last second
        pure false
      | .either first second => do
        evaluate fuel true false first
        let st ← get
        if st.status != 0 && st.skip.isNone then evaluate fuel tested last second
        pure false
      | .negated body => do
        evaluate fuel true false body
        modify fun st => { st with status := if st.status == 0 then 1 else 0 }
        pure false
      | .ifThen condition thenBody elseBody => do
        evaluate fuel true false condition
        let st ← get
        if st.skip.isNone then
          let chosen := if st.status == 0 then thenBody else elseBody
          match chosen with
          | .nothing => setStatus 0
          | _ => evaluate fuel tested last chosen
        pure false
      | .loop whileTrue condition body => do
        loop fuel tested whileTrue condition body
        pure false
      | .forEach line name items body => do
        setLine line
        let all ← items.flatMapM (fields fuel)
        modify fun st => { st with loops := st.loops + 1, status := 0 }
        let _ ← Run.repeating (fun (left : List Text) => do
          match left with
          | [] => return .inr ()
          | value :: left => do
            Run.assign name value
            evaluate fuel tested false body
            match ← leaveTurn with
            | none | some (.goOn _) => return .inl left
            | some _ => return .inr ()) turnLimit all
        modify fun st => { st with loops := st.loops - 1 }
        pure false
      | .choose line subject branches => do
        setLine line
        let cs ← textOf fuel .atStart subject
        let chosen ← branches.findM? fun branch =>
          branch.1.anyM fun pattern => do
            return Glob.matchesAll (Glob.ofMarked (← markedOf fuel pattern)) cs
        match chosen with
        | some (_, .nothing) | none => setStatus 0
        | some (_, body) => evaluate fuel tested last body
        pure false
      | .define _ name body => do
        modify fun st => { st with
          functions := (name, body) :: st.functions.filter (·.1 != name), status := 0 }
        pure false
    answerSignals fuel
    let st ← get
    if checked && !tested && st.status != 0 && st.options.contains 'e' then throw .exit

/-- Runs the body of a loop as long as its condition allows. -/
def loop : Nat → (tested whileTrue : Bool) → (condition body : Command) → Run Unit
  | 0, _, _, _, _ => Run.stop 255 .exit
  | fuel + 1, tested, whileTrue, condition, body => do
    modify fun st => { st with loops := st.loops + 1 }
    let status ← Run.repeating (fun (status : Nat) => do
      evaluate fuel true false condition
      let found := (← get).status
      match ← leaveTurn with
      | some (.goOn _) => return .inl status
      | some (.leave _) => return .inr status
      | some (.finish chosen) => return .inr (if chosen then found else status)
      | none =>
        if (found == 0) != whileTrue then return .inr status
        else do
          evaluate fuel tested false body
          let status := (← get).status
          match ← leaveTurn with
          | none | some (.goOn _) => return .inl status
          | some _ => return .inr status) turnLimit 0
    modify fun st => { st with loops := st.loops - 1, status }

/-- Runs the stages of a pipeline one after the other, each on the output of the one before. -/
def pipeline : Nat → (tested : Bool) → List Command → Run Unit
  | 0, _, _ => Run.stop 255 .exit
  | fuel + 1, tested, stages => do
    let total := stages.length
    let _ ← stages.zipIdx.foldlM (fun (input : Option Text) (stage : Command × Nat) => do
      let isLast := stage.2 + 1 == total
      let base := (← get).nextOpened
      let prepare (st : State) : State :=
        let st := match input with
          | some cs => st.openAs 0 (.source cs false)
          | none => st
        if isLast then st else st.collect
      let sink := if input.isSome then base + 1 else base
      let (ending, child) ← inCopy prepare (toEnd fuel (evaluate fuel tested true stage.1))
      if isLast then do
        report ending
        setStatus ending.shellCode
      return some (child.collected sink)) none

/-- Runs a simple command. -/
def simple : Nat → (tested last : Bool) → (line : Nat) → (assignments words : List Word) →
    List Redirection → Run Unit
  | 0, _, _, _, _, _, _ => Run.stop 255 .exit
  | fuel + 1, tested, last, line, assignments, words, redirections => do
    setLine line
    modify fun st => { st with outputStatus := 0 }
    let (start, rest) ← firstFields fuel words
    -- The command, what of it is shown, and the words that are still to be expanded.
    let searchPath := (← get).searchPath
    let first? ← start.head?.mapM (callable searchPath false)
    let isCommand := match first? with
      | some (.builtin "command") => true
      | _ => false
    let (found, shownBefore, rest, usual, behind) ←
      if isCommand then do
        match ← behindCommand fuel start.tail rest false with
        | (some (found, rest, usual), seen, _) =>
          pure (found, start.take 1 ++ seen.take (seen.length - found.length), rest, usual, true)
        | (none, seen, rest) => pure (start.take 1 ++ seen, [], rest, false, false)
      else pure (start, [], rest, false, false)
    let callee? ←
      if behind then found.head?.mapM (callable searchPath true) else pure first?
    let assigns := match callee? with
      | some (.builtin name) => Builtin.assigning.contains name
      | _ => false
    let more ← rest.flatMapM fun w => do
      if assigns && isAssignment w then return [← assignmentText fuel w] else fields fuel w
    let argv := found ++ more
    let special := !isCommand && match callee? with
      | some (.builtin name) => Builtin.special.contains name
      | _ => false
    let isExec := match callee? with
      | some (.builtin "exec") => true
      | _ => false
    let keepsAssignments := argv.isEmpty || special
    if !keepsAssignments then modify State.pushFrame
    let before := (← get).descriptors
    let all ← targets fuel redirections
    let body : Run Unit := do
      if !(← redirect fuel all) then do
        setStatus 2
        if special then throw .failure
      else do
        let set ← assignments.mapM fun w => do
          match w.assignment? with
          | none => return ([], [])
          | some (name, value) => do
            let value ← textOf fuel .inValue value
            if !keepsAssignments then modify fun st => st.keep name
            Run.assign name value
            if !keepsAssignments || (isExec && 1 < argv.length) then
              modify fun st =>
                let v := (st.bindings.lookup name).getD { value := none }
                st.putVariable name { v with exported := true }
            return (name, value)
        if (← get).options.contains 'x' then do
          let shown := set.map (fun a => a.1 ++ '=' :: a.2) ++ shownBefore ++ argv
          trace fuel before shown
        match argv, callee? with
        | name :: args, some callee =>
          call fuel tested last usual behind callee special name args
        | _, _ => modify fun st => { st with status := st.outputStatus }
    if isExec then body
    else Run.restoring (fun st => { st with descriptors := before }) body
    if !keepsAssignments then modify State.popFrame

/-- An assignment among the arguments of a command, expanded. -/
def assignmentText : Nat → Word → Run Text
  | 0, _ => Run.stop 255 .exit
  | fuel + 1, w => do
    match w.assignment? with
    | some (name, value) => return name ++ '=' :: (← textOf fuel .inValue value)
    | none => textOf fuel .nowhere w

/-- Shows a command before it is run, where the standard error output led before it. -/
def trace : Nat → (descriptors : List (Nat × Nat)) → List Text → Run Unit
  | 0, _, _ => return
  | fuel + 1, descriptors, shown => do
    let st ← get
    let start ← match Script.quotedText ((st.value? (lit "PS4")).getD []) with
      | .ok w => do
        set { st with options := st.options.filter (· != 'x') }
        let cs ← textOf fuel .nowhere w
        modify fun after => { after with options := st.options }
        pure cs
      | .error _ => pure []
    modify fun st =>
      let now := st.descriptors
      let st := { st with descriptors }.complain (start ++ Text.joinWith [' '] shown)
      { st with descriptors := now }

/-- Runs what a command's name stands for. -/
def call : Nat → (tested last usual withoutFunctions : Bool) → Callable → (special : Bool) →
    Text → List Text → Run Unit
  | 0, _, _, _, _, _, _, _, _ => Run.stop 255 .exit
  | fuel + 1, tested, last, usual, withoutFunctions, callee, special, name, args => do
    match callee with
    | .builtin b => do
      let before := (← get).command
      Run.restoring (fun st => { st with command := before }) do
        modify fun st => { st with command := some name, broken := false }
        tryCatch (do
          let status ← builtin fuel tested b args
          if (← get).broken then do
            Run.warn (name ++ lit ": I/O error")
            setStatus (status ||| 1)
          else setStatus status) fun e => do
            if e == .failure && !special then return else throw e
    | .function body => function fuel tested body args
    | _ => do
      let st ← get
      let searchPath := if usual then Builtin.standardPath else st.searchPath
      -- Assignments before the command may have changed where programs are looked for.
      match ← callable searchPath withoutFunctions name with
      | .nothing e => do
        Run.warn (name ++ lit ": " ++ describe .running e)
        setStatus 127
      | _ =>
        let started := runNamed fuel searchPath name args
        if last && !st.hasTraps then started
        else do
          let (ending, _) ← inCopy id started
          report ending
          setStatus ending.shellCode

/-- Runs a function. -/
def function : Nat → (tested : Bool) → Command → List Text → Run Unit
  | 0, _, _, _ => Run.stop 255 .exit
  | fuel + 1, tested, body, args => do
    let st ← get
    set { st with arguments := args, optionIndex := 1, optionOffset := none, loops := 0 }
    evaluate fuel tested false body
    modify fun after => { after with
      arguments := st.arguments, optionIndex := st.optionIndex, optionOffset := st.optionOffset
      loops := st.loops
      skip := match after.skip with
        | some (.finish _) => none
        | other => other }

/-- Runs a command of the shell itself. -/
def builtin : Nat → (tested : Bool) → String → List Text → Run Nat
  | 0, _, _, _ => Run.stop 255 .exit
  | fuel + 1, tested, name, args => do
    match name with
    | "eval" =>
      if args.isEmpty then return 0
      else runText fuel (Text.joinWith [' '] args) tested
    | "exec" =>
      let args := match args with
        | ['-', '-'] :: rest => rest
        | _ => args
      match args with
      | [] => return 0
      | program :: rest => do
        let searchPath := (← get).searchPath
        match ← pathOf searchPath program with
        | .error e => cannotRun program e
        | .ok _ => do
          runNamed fuel searchPath program rest
          return (← get).status
    | "." => do
      let (_, args) ← Builtin.options "" "" args
      match args with
      | [] => return 0
      | file :: _ => dot fuel file
    | _ =>
      match Builtin.run? name args with
      | some steps => steps
      | none => return 127

/-- Runs a file in this shell. -/
def dot : Nat → Text → Run Nat
  | 0, _ => Run.stop 255 .exit
  | fuel + 1, file => do
    let st ← get
    let isFile (p : Path) : Bool := match st.files.stat p with
      | .ok (.file _ _ _) => true
      | _ => false
    let p ← if file.contains '/' then pure (Text.toPath file)
      else
        match (st.searchPath.map fun dir => dir.join (Text.toPath file)).find? isFile with
        | some p => pure p
        | none => Run.fail (file ++ lit ": not found")
    let place := Text.ofString p.text
    let (read, st) := st.contents place
    set st
    match read with
    | .error .isADirectory => return 0
    | .error e => Run.fail (lit "cannot open " ++ place ++ lit ": " ++ describe .reading e)
    | .ok cs => do
      modify fun st => { st with command := some place }
      let _ ← runText fuel cs false
      modify fun st => { st with skip := match st.skip with
        | some (.finish _) => none
        | other => other }
      return (← get).status

/-- Reads and runs a script: its status, which is zero if it has no commands. -/
def runText : Nat → Text → (tested : Bool) → Run Nat
  | 0, _, _ => Run.stop 255 .exit
  | fuel + 1, text, tested => do
    let script : Script := { rest := text }
    Run.repeating (fun (progress : Script × Nat) => do
      let st ← get
      let script := { progress.1 with nextDocument := st.nextDocument, documents := [] }
      match Script.next.run script with
      | .error e => do
        setLine e.line
        Run.fail (lit ("Syntax error: " ++ e.message))
      | .ok (none, _) => return .inr progress.2
      | .ok (some c, script) => do
        modify fun st => { st with
          nextDocument := script.nextDocument, documents := script.documents ++ st.documents }
        match c with
        | .nothing => return .inl (script, progress.2)
        | _ => do
          evaluate fuel tested false c
          let st ← get
          if st.skip.isSome then return .inr st.status
          else return .inl (script, st.status)) turnLimit (script, 0)

/-- Starts a program by its name in the place of this process. -/
def runNamed : Nat → List Path → Text → List Text → Run Unit
  | 0, _, _, _ => Run.stop 255 .exit
  | fuel + 1, searchPath, name, args => do
    match ← pathOf searchPath name with
    | .error e => cannotRun name e
    | .ok p => do
      let st ← get
      match Program.resolve Program.interpreterLimit st.files p name args with
      | .ok (tool, argv) => runTool fuel tool argv
      | .error .execFormat => runTool fuel "sh" (shellPath :: Text.ofString p.text :: args)
      | .error e => cannotRun name e

/-- Runs one of the host's tools in the place of this process. -/
def runTool : Nat → String → List Text → Run Unit
  | 0, _, _ => Run.stop 255 .exit
  | fuel + 1, tool, argv => do
    let zero := argv.headD []
    modify fun st => st.forProgram zero
    if tool == "sh" || tool == "dash" then shell fuel argv.tail
    else do
      let launch : Launch := fun command => do
        let st ← get
        let name := command.headD []
        match Program.find st.files st.searchPath (Text.toString name) with
        | .error e => return .error e
        | .ok p =>
          let inside : Except FileError (Run Unit) :=
            match Program.resolve Program.interpreterLimit st.files p name command.tail with
            | .ok (tool, argv) => .ok (runTool fuel tool argv)
            | .error .execFormat =>
              .ok (runTool fuel "sh" (shellPath :: Text.ofString p.text :: command.tail))
            | .error e => .error e
          match inside with
          | .error e => return .error e
          | .ok steps => do
            let (ending, _) ← inCopy id steps
            return .ok ending
      setStatus (← Tool.run launch tool argv.tail)
    throw .exit

/-- Runs the shell with its arguments. -/
def shell : Nat → List Text → Run Unit
  | 0, _ => Run.stop 255 .exit
  | fuel + 1, args =>
    toEnd fuel do
      modify State.withShellVariables
      setLine 0
      let (given, rest, _) ← Builtin.shellOptions true (args.length + 1) args
      if given.contains 'c' then
        match rest with
        | [] => Run.fail (lit "-c requires an argument")
        | text :: rest => do
          match rest with
          | zero :: arguments => modify fun st => { st with zero, arguments }
          | [] => pure ()
          let _ ← runText fuel text false
      else
        match rest with
        | file :: arguments =>
          if (← get).options.contains 's' then do
            modify fun st => { st with arguments := rest }
            let text ← modifyGet fun st => st.readAll 0
            let _ ← runText fuel text false
          else do
            match ← modifyGet fun st => st.contents file with
            | .ok text => do
              modify fun st => { st with zero := file, arguments }
              let _ ← runText fuel text false
            | .error .isADirectory => return ()
            | .error e =>
              Run.fail (lit "cannot open " ++ file ++ lit ": " ++ describe .reading e)
        | [] => do
          let text ← modifyGet fun st => st.readAll 0
          let _ ← runText fuel text false

end

end IncrementalBuild.Shell
