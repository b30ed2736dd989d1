import IncrementalBuild.Host.ExitStatus
import IncrementalBuild.Host.Names
import IncrementalBuild.Host.Shell.Script
/-!
# The state of a process

What a running script or tool knows and has done so far: the files it works on, its variables, and
where its descriptors lead.

## Main definitions

* `Shell.OpenFile` — what a descriptor leads to. Processes share open files, so that one goes on
  where another has stopped reading or writing.
* `Shell.Variable` — the variables of a script.
* `Shell.State` — the state of a process.
* `Shell.Run`, `Shell.Stop` — a step of a process, and how it can break off.
* `Shell.Run.fail` — reports a failure of the shell itself.
-/

namespace IncrementalBuild.Shell

/-! ### Open files -/

/-- What a descriptor leads to. -/
inductive OpenFile
  /-- Swallows what is written, and is empty when it is read. -/
  | null
  /-- A text to be read; the flag says whether it is that of a file, where one can go back. -/
  | source (rest : Text) (fromFile : Bool)
  /-- Collects what is written; the latest part comes first. -/
  | sink (parts : List Text)
  /-- A file to be written, with the place where the next byte goes. -/
  | file (place : Location) (offset : Nat)
  /-- A file that is written at its end. -/
  | fileEnd (place : Location)
  /-- A directory. -/
  | directory

/-! ### Variables -/

/-- A variable of the shell. -/
structure Variable where
  /-- The value, if it is set. -/
  value : Option Text
  exported : Bool := false
  fixed : Bool := false

/-- What is restored when a function or a command with assignments is left. -/
structure Frame where
  bindings : List (Text × Option Variable) := []
  options : Option (List Char) := none

/-! ### Skipping -/

/-- What makes the commands that follow be skipped. -/
inductive Skip
  /-- Loops are left; the number says how many. -/
  | leave (loops : Nat)
  /-- Loops but the last are left, and that one goes on; the number says how many. -/
  | goOn (loops : Nat)
  /-- A function or a script is left; the flag says whether with a status of its own. -/
  | finish (chosen : Bool)
  deriving DecidableEq, Repr

/-- How a process breaks off. -/
inductive Stop
  /-- After a failure of the shell itself. -/
  | failure
  /-- By its own decision. -/
  | exit
  /-- By a signal. -/
  | killed (signal : Nat)
  deriving DecidableEq, Repr

/-! ### Processes -/

/-- A command that was not waited for. -/
structure Job where
  process : Nat
  status : ExitStatus
  /-- When it ends, in milliseconds since the start. -/
  finish : Nat

/-! ### The state -/

/-- The state of a process. -/
structure State where
  files : Files
  /-- Which names are those of one file. -/
  names : Names := []
  bindings : List (Text × Variable) := []
  functions : List (Text × Command) := []
  /-- What each function being run has to restore, the innermost first. -/
  saved : List Frame := []
  /-- The name the script was started under. -/
  zero : Text := []
  arguments : List Text := []
  /-- The options that are switched on, by their letters. -/
  options : List Char := []
  status : Nat := 0
  /-- The status of the last script whose output was taken. -/
  outputStatus : Nat := 0
  /-- The number of the line that messages name. -/
  line : Nat := 1
  /-- The command that messages name. -/
  command : Option Text := none
  /-- The commands to run on signals, by number; zero is the end of the script. -/
  traps : List (Nat × Text) := []
  /-- The signals that have arrived and are still to be answered. -/
  arrived : List Nat := []
  /-- The status before a command that is run on a signal or at the end. -/
  beforeTrap : Option Nat := none
  skip : Option Skip := none
  /-- How many loops are being run. -/
  loops : Nat := 0
  /-- What is open, by number. -/
  opened : List (Nat × OpenFile) := []
  /-- The number of the next open file. -/
  nextOpened : Nat := 0
  /-- Where descriptors lead. -/
  descriptors : List (Nat × Nat) := []
  documents : List (Nat × Word) := []
  nextDocument : Nat := 0
  /-- The number of the process that runs the script, also in copies of it. -/
  process : Nat := 4242
  /-- The number of this process. -/
  self : Nat := 4242
  /-- The processes that wait for this one. -/
  ancestors : List Nat := []
  /-- The signals that were sent to processes that wait: a process and a signal each. -/
  posted : List (Nat × Nat) := []
  /-- The number of the next process. -/
  nextProcess : Nat := 4243
  /-- The commands that were not waited for. -/
  jobs : List Job := []
  /-- The number of the last of them. -/
  lastJob : Option Nat := none
  /-- The argument in which the next option letter is looked for. -/
  optionIndex : Nat := 1
  /-- Where in an argument the next option letter is looked for. -/
  optionOffset : Option Nat := none
  aliases : List (Text × Text) := []
  /-- The programs that were found on the search path. -/
  remembered : List (Text × Path) := []
  /-- How many milliseconds the process spent asleep. -/
  elapsed : Nat := 0
  /-- Whether something could not be written. -/
  broken : Bool := false
  /-- The permissions that new files lack. -/
  fileMask : Nat := 18

/-- A step of a process. -/
abbrev Run := ExceptT Stop (StateM State)

namespace State

/-! ### Descriptors -/

/-- What a descriptor leads to. -/
def target? (st : State) (descriptor : Nat) : Option OpenFile :=
  (st.descriptors.lookup descriptor).bind fun n => st.opened.lookup n

/-- Changes what a descriptor leads to, for all that share it. -/
def setTarget (st : State) (descriptor : Nat) (f : OpenFile) : State :=
  match st.descriptors.lookup descriptor with
  | some n => { st with opened := (n, f) :: st.opened.filter (·.1 != n) }
  | none => st

/-- Opens a file under a descriptor. -/
def openAs (st : State) (descriptor : Nat) (f : OpenFile) : State :=
  { st with
    opened := (st.nextOpened, f) :: st.opened
    nextOpened := st.nextOpened + 1
    descriptors := (descriptor, st.nextOpened) :: st.descriptors.filter (·.1 != descriptor) }

/-- Closes a descriptor. -/
def close (st : State) (descriptor : Nat) : State :=
  { st with descriptors := st.descriptors.filter (·.1 != descriptor) }

/-- Lets a descriptor lead to where another one leads. -/
def duplicate (st : State) (descriptor other : Nat) : State :=
  match st.descriptors.lookup other with
  | some n => { st.close descriptor with
      descriptors := (descriptor, n) :: st.descriptors.filter (·.1 != descriptor) }
  | none => st

/-- The bytes of a file after others were written at a place. -/
def overwrite (old : Bytes) (offset : Nat) (more : Bytes) : Bytes :=
  old.take offset ++ List.replicate (offset - old.length) 0 ++ more
    ++ old.drop (offset + more.length)

/-- Writes to a descriptor. -/
def write (st : State) (descriptor : Nat) (cs : Text) : State :=
  if cs.isEmpty then st
  else
    match st.target? descriptor with
    | some (.sink parts) => st.setTarget descriptor (.sink (cs :: parts))
    | some (.file place offset) =>
      match st.files.at? place with
      | some (.file old _ _) =>
        { st.setTarget descriptor (.file place (offset + cs.length)) with
          files := st.names.spread st.files place
            (st.files.putFile place (overwrite old offset (Text.toBytes cs))) }
      | _ => st
    | some (.fileEnd place) =>
      match st.files.at? place with
      | some (.file old _ _) =>
        { st with
          files := st.names.spread st.files place
            (st.files.putFile place (old ++ Text.toBytes cs)) }
      | _ => st
    | some .null => st
    | _ => { st with broken := true }

/-- Takes what is left to read at a descriptor. -/
def readAll (st : State) (descriptor : Nat) : Text × State :=
  match st.target? descriptor with
  | some (.source rest fromFile) => (rest, st.setTarget descriptor (.source [] fromFile))
  | some (.file place offset) =>
    match st.files.at? place with
    | some (.file contents _ _) =>
      (Text.ofBytes (contents.drop offset), st.setTarget descriptor (.file place contents.length))
    | _ => ([], st)
  | _ => ([], st)

/-- Gives back what was taken too much of at a descriptor. -/
def unread (st : State) (descriptor : Nat) (rest : Text) : State :=
  match st.target? descriptor with
  | some (.source _ fromFile) => st.setTarget descriptor (.source rest fromFile)
  | some (.file place offset) => st.setTarget descriptor (.file place (offset - rest.length))
  | _ => st

/-- Begins to collect what is written to the standard output. -/
def collect (st : State) : State := st.openAs 1 (.sink [])

/-- What was collected under a number. -/
def collected (st : State) (number : Nat) : Text :=
  match st.opened.lookup number with
  | some (.sink parts) => parts.reverse.flatten
  | _ => []

/-! ### Messages -/

/-- Writes a line to the standard error output. -/
def complain (st : State) (message : Text) : State := st.write 2 (message ++ ['\n'])

/-- Writes a message of the shell, which names the script, the line and the command. -/
def warn (st : State) (message : Text) : State :=
  let command := match st.command with
    | some name => name ++ lit ": "
    | none => []
  st.complain (st.zero ++ lit ": " ++ Text.ofNat st.line ++ lit ": " ++ command ++ message)

/-! ### Variables -/

/-- The value of a variable. -/
def value? (st : State) (name : Text) : Option Text := (st.bindings.lookup name).bind (·.value)

/-- Replaces a variable. -/
def putVariable (st : State) (name : Text) (v : Variable) : State :=
  { st with bindings := (name, v) :: st.bindings.filter (·.1 != name) }

/-- What follows from a new value of a variable: `OPTIND` says where options are looked for, and
with another `PATH` programs are looked for anew. -/
def noticeChange (st : State) (name : Text) : State :=
  if name == lit "OPTIND" then
    let n := (integerPrefix false ((st.value? name).getD [])).value
    { st with optionIndex := if n ≤ 0 then 1 else n.toNat, optionOffset := none }
  else if name == lit "PATH" then { st with remembered := [] }
  else st

/-- Sets a variable without regard to whether it is fixed. -/
def assign (st : State) (name value : Text) : State :=
  let old := (st.bindings.lookup name).getD { value := none }
  (st.putVariable name
    { old with value := some value, exported := old.exported || st.options.contains 'a' }
      ).noticeChange name

/-- Forgets a variable. -/
def forget (st : State) (name : Text) : State :=
  ({ st with bindings := st.bindings.filter (·.1 != name) }).noticeChange name

/-- Puts a variable back as it was. -/
def restore (st : State) (name : Text) (old : Option Variable) : State :=
  match old with
  | some v => (st.putVariable name v).noticeChange name
  | none => st.forget name

/-- Begins a frame of things to restore. -/
def pushFrame (st : State) : State := { st with saved := {} :: st.saved }

/-- Ends the innermost frame and restores what it holds, the latest first. -/
def popFrame (st : State) : State :=
  match st.saved with
  | frame :: saved =>
    let st := frame.bindings.foldl (fun st v => st.restore v.1 v.2) { st with saved }
    match frame.options with
    | some options => { st with options }
    | none => st
  | [] => st

/-- Makes the innermost frame restore a variable. -/
def keep (st : State) (name : Text) : State :=
  match st.saved with
  | frame :: saved =>
    { st with saved :=
        { frame with bindings := (name, st.bindings.lookup name) :: frame.bindings } :: saved }
  | [] => st

/-- Makes the innermost frame restore the options. -/
def keepOptions (st : State) : State :=
  match st.saved with
  | frame :: saved =>
    { st with saved :=
        { frame with options := some (frame.options.getD st.options) } :: saved }
  | [] => st

/-- The exported variables that are set. -/
def environment (st : State) : List (Text × Text) :=
  st.bindings.filterMap fun v => if v.2.exported then v.2.value.map fun x => (v.1, x) else none

/-- The characters that separate fields. -/
def separators (st : State) : Text := (st.value? (lit "IFS")).getD [' ', '\t', '\n']

/-- The directories that programs are looked for in. -/
def searchPath (st : State) : List Path :=
  match st.value? (lit "PATH") with
  | some value => (Text.splitAt ':' value).map Text.toPath
  | none =>
    [⟨"/usr/local/sbin"⟩, ⟨"/usr/local/bin"⟩, ⟨"/usr/sbin"⟩, ⟨"/usr/bin"⟩, ⟨"/sbin"⟩, ⟨"/bin"⟩]

/-- The letters of the options in the order in which they are listed. -/
def optionLetters : List Char :=
  ['e', 'f', 'I', 'i', 'm', 'n', 's', 'x', 'v', 'V', 'E', 'C', 'a', 'b', 'u']

/-- The value of a parameter that is not a list, if it has one. -/
def parameter? (st : State) (name : Text) : Option Text :=
  match name with
  | ['#'] => some (Text.ofNat st.arguments.length)
  | ['?'] => some (Text.ofNat st.status)
  | ['$'] => some (Text.ofNat st.process)
  | ['!'] => st.lastJob.map Text.ofNat
  | ['-'] => some ((optionLetters.filter st.options.contains).reverse)
  | _ =>
    if isNatural name then
      match valueOf name with
      | 0 => some st.zero
      | n + 1 => st.arguments[n]?
    else st.value? name

end State

namespace Run

/-- Breaks off with a status. -/
def stop {α : Type} (status : Nat) (how : Stop) : Run α := do
  modify fun st => { st with status }
  throw how

/-- Reports a failure of the shell and breaks off. -/
def fail {α : Type} (message : Text) : Run α := do
  modify fun st => { st.warn message with status := 2 }
  throw .failure

/-- Writes to the standard output. -/
def print (cs : Text) : Run Unit := modify fun st => st.write 1 cs

/-- Writes a message of the shell. -/
def warn (message : Text) : Run Unit := modify fun st => st.warn message

/-- Writes a line to the standard error output. -/
def complain (message : Text) : Run Unit := modify fun st => st.complain message

/-- Sets a variable. -/
def assign (name value : Text) : Run Unit := do
  if !isName name then fail (name ++ lit ": bad variable name")
  match (← get).bindings.lookup name with
  | some v =>
    if v.fixed then fail (name ++ lit ": is read only")
    else modify fun st => st.assign name value
  | none => modify fun st => st.assign name value

/-- The small natural number that an argument has to be. -/
def small (cs : Text) : Run Nat :=
  match small? cs with
  | some n => return n
  | none => fail (lit "Illegal number: " ++ cs)

end Run

end IncrementalBuild.Shell
