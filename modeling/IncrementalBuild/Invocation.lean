import IncrementalBuild.Invocation.Switch
import IncrementalBuild.Path.Basic
/-!
# Invocations

What the program is asked for by its command line. Switches stand first. After them comes either
the command `server` with an owner, or the arguments of a compiler, which may themselves look like
switches: the first word that is neither a switch nor a command ends the reading, and so does
`--`.

## Main definitions

* `Invocation`, `Invocation.parse` — what is asked for, and reading it.
* `Reading` — what was read so far, with the value that is still to be looked at.

## Order

The value of a switch is looked at when the next switch or the end is reached, and a command is
read to its end before that. So of several faults the one that is reported is often not the first.
-/

namespace IncrementalBuild

/-! ### Invocations -/

/-- A build that is asked for. -/
structure BuildDemand where
  /-- The compiler's arguments. -/
  args : List String := []
  /-- The owner, if it is given. -/
  owner : Option Nat := none
  /-- Whether a server that has to be launched runs on a thread of the program. -/
  inProcess : Bool := false
  /-- The settings file, if one is given. -/
  settings : Option Path := none
  verbose : Bool := false
  deriving DecidableEq, Repr

/-- A server that is asked for. -/
structure ServerDemand where
  owner : Nat
  /-- The settings file, if one is given. -/
  settings : Option Path := none
  verbose : Bool := false
  deriving DecidableEq, Repr

/-- What help is about. -/
inductive Topic
  | program
  | server
  | help
  deriving DecidableEq, Repr

/-- What the program is asked for. -/
inductive Invocation
  | build (demand : BuildDemand)
  | serve (demand : ServerDemand)
  | help (topic : Topic)
  | version
  deriving DecidableEq, Repr

/-! ### Reading -/

/-- What was read of a command line so far. -/
structure Reading where
  verbose : Bool := false
  settings : Option String := none
  owner : Option Nat := none
  inProcess : Bool := false
  /-- The owner of the command `server`. -/
  serverOwner : Option Nat := none
  /-- The place whose value is not yet looked at, and the value if it has come. -/
  pending : Option (Place × Option String) := none
  deriving DecidableEq, Repr

namespace Reading

/-- The switch whose value comes next, if one is wanted. -/
def awaited? (r : Reading) : Option Switch :=
  match r.pending with
  | some (.after s, none) => some s
  | _ => none

/-- The process number in a value. -/
def numberIn (value : String) (place : Place) : Except UsageError Nat :=
  match Decimal.readSigned Decimal.word value.toList with
  | .ok n => .ok n
  | .error fault => .error (.invalidValue value place fault)

/-- Takes a value in. -/
def accept (r : Reading) (place : Place) (value : String) : Except UsageError Reading :=
  match place with
  | .after .settings =>
    if r.settings.isSome then .error (.repeated .settings)
    else if value = "" then .error (.valueRequired .settings)
    else .ok { r with settings := some value }
  | .after s =>
    if r.owner.isSome then .error (.repeated s)
    else (numberIn value place).map fun n => { r with owner := some n }
  | .serverOwner => (numberIn value place).map fun n => { r with serverOwner := some n }

/-- Looks at the value that was left. -/
def settle (r : Reading) : Except UsageError Reading :=
  match r.pending with
  | none => .ok r
  | some (.after s, none) => .error (.valueRequired s)
  | some (.serverOwner, none) => .error .ownerRequired
  | some (place, some value) => { r with pending := none }.accept place value

/-- Leaves a value to be looked at later. -/
def postpone (r : Reading) (place : Place) (value : Option String) : Reading :=
  { r with pending := some (place, value) }

/-- Turns a switch on that takes no value. -/
def turnOn (r : Reading) (s : Switch) : Except UsageError Reading :=
  match s with
  | .verbose => if r.verbose then .error (.repeated s) else .ok { r with verbose := true }
  | .inProcess => if r.inProcess then .error (.repeated s) else .ok { r with inProcess := true }
  | _ => .ok r

/-- Takes a switch in, with the value that is attached to it. -/
def takeSwitch (r : Reading) (s : Switch) (attached : Option String) : Except UsageError Reading :=
  match s.valueName?, attached with
  | some _, some value => do (← r.settle).accept (.after s) value
  | some _, none => do return (← r.settle).postpone (.after s) none
  | none, some value => .error (.valueRefused value s)
  | none, none => do (← r.settle).turnOn s

end Reading

namespace Invocation

/-- The name and the attached value of a word that is written like a switch. -/
def switchWord? : List Char → Option (List Char × Option String)
  | '-' :: '-' :: [] => none
  | '-' :: '-' :: rest =>
    let name := rest.takeWhile (· != '=')
    some (name, if name = rest then none else some (String.ofList (rest.drop (name.length + 1))))
  | _ => none

/-- The switch of a word, with the value that is attached to it. -/
def switchOf? (known : List Switch) (word : String) : Option (Switch × Option String) := do
  let (name, attached) ← switchWord? word.toList
  let s ← known.find? fun s => s.name.toList == name
  return (s, attached)

/-- How a message names a word that is written like a switch, if it is. A word after a single dash
is taken letter by letter. -/
def dashed? (word : List Char) : Option String :=
  match switchWord? word, word with
  | some (name, _), _ => some (String.ofList ('-' :: '-' :: name))
  | none, '-' :: '-' :: _ => none
  | none, '-' :: c :: _ => some (String.ofList ['-', c])
  | none, _ => none

/-- Reads what follows the command `server`. After `--` no word is a switch. -/
def readServer (r : Reading) (literal hasOwner : Bool) : List String → Except UsageError Reading
  | [] => do
    let r ← r.settle
    if r.serverOwner.isSome then .ok r else .error .ownerRequired
  | word :: rest =>
    if !literal && word == "--" then readServer r true hasOwner rest
    else
      match if literal then none else switchOf? Switch.everywhere word with
      | some (s, attached) => do readServer (← r.takeSwitch s attached) literal hasOwner rest
      | none =>
        match if literal then none else dashed? word.toList with
        | some name => .error (.unexpected name)
        | none =>
          match if literal then none else r.awaited? with
          | some s => readServer (r.postpone (.after s) (some word)) literal hasOwner rest
          | none =>
            if hasOwner then .error (.unexpected word)
            else do
              readServer ((← r.settle).postpone .serverOwner (some word)) literal true rest

/-- Reads what follows the command `help`. -/
def readHelp : List String → Except UsageError Topic
  | [] => .ok .program
  | ["server"] => .ok .server
  | ["help"] => .ok .help
  | "server" :: name :: _ => .error (.unknownCommand name)
  | "help" :: name :: _ => .error (.unknownCommand name)
  | name :: _ => .error (.unknownCommand name)

/-- The build that is asked for after a reading. -/
def buildOf (r : Reading) (args : List String) : Except UsageError Invocation := do
  let r ← r.settle
  return .build {
    args, owner := r.owner, inProcess := r.inProcess, settings := r.settings.map Path.mk,
    verbose := r.verbose }

/-- The server that is asked for after a reading. What stands after the command counts more than
what stands before it. -/
def serverOf (r : Reading) (rest : List String) : Except UsageError Invocation := do
  let after ← readServer {} false false rest
  let r ← r.settle
  return .serve {
    owner := after.serverOwner.getD 0, settings := (after.settings.or r.settings).map Path.mk,
    verbose := after.verbose || r.verbose }

/-- Reads a command line. -/
def read (r : Reading) : List String → Except UsageError Invocation
  | [] => buildOf r []
  | word :: rest =>
    match r.awaited?, word with
    | none, "server" => serverOf r rest
    | none, "help" => (readHelp rest).map .help
    | _, "--" => buildOf r rest
    | awaited, _ =>
      match switchOf? Switch.all word, awaited with
      | some (.help, none), _ => do
        let _ ← r.settle
        return .help .program
      | some (.version, none), _ => do
        let _ ← r.settle
        return .version
      | some (s, attached), _ => do read (← r.takeSwitch s attached) rest
      | none, some s => read (r.postpone (.after s) (some word)) rest
      | none, none => buildOf r (word :: rest)

/-- Reads a whole command line. -/
def parse (words : List String) : Except UsageError Invocation := read {} words

end Invocation
end IncrementalBuild
