import IncrementalBuild.Text.Decimal
/-!
# Switches

The switches of the command line, and what can be wrong with a command line.

## Main definitions

* `Switch` — the switches, with their names and the names of their values.
* `UsageError`, `UsageError.message` — what can be wrong, and how it is reported.
-/

namespace IncrementalBuild

/-- The switches of the program. -/
inductive Switch
  | verbose
  | settings
  | owner
  | inProcess
  | help
  | version
  deriving DecidableEq, Repr

namespace Switch

/-- The switches that the program understands before a command. -/
def all : List Switch := [.verbose, .settings, .owner, .inProcess, .help, .version]

/-- The switches that stay understood after the command `server`. -/
def everywhere : List Switch := [.verbose, .settings]

/-- The name of a switch. -/
def name : Switch → String
  | .verbose => "verbose"
  | .settings => "settings"
  | .owner => "owner"
  | .inProcess => "in-process"
  | .help => "help"
  | .version => "version"

/-- What the value of a switch is called, if it takes one. -/
def valueName? : Switch → Option String
  | .settings => some "PATH"
  | .owner => some "PID"
  | _ => none

/-- A switch as messages name it. -/
def display (s : Switch) : String :=
  match s.valueName? with
  | some value => s!"--{s.name} <{value}>"
  | none => s!"--{s.name}"

end Switch

/-! ### Errors -/

/-- A place on the command line where a value is wanted. -/
inductive Place
  /-- After a switch. -/
  | after (s : Switch)
  /-- The owner of the command `server`. -/
  | serverOwner
  deriving DecidableEq, Repr

/-- A place as messages name it. -/
def Place.display : Place → String
  | .after s => s.display
  | .serverOwner => "<OWNER>"

/-- What is wrong with a command line. -/
inductive UsageError
  | invalidValue (value : String) (place : Place) (fault : Decimal.Fault)
  | valueRequired (s : Switch)
  /-- A switch that takes no value got one. -/
  | valueRefused (value : String) (s : Switch)
  | repeated (s : Switch)
  | unexpected (argument : String)
  | ownerRequired
  | unknownCommand (name : String)
  deriving DecidableEq, Repr

/-- The text of a usage error. -/
def UsageError.message : UsageError → String
  | .invalidValue value place fault =>
    s!"invalid value '{value}' for '{place.display}': {fault.message}"
  | .valueRequired s => s!"a value is required for '{s.display}' but none was supplied"
  | .valueRefused value s =>
    s!"unexpected value '{value}' for '{s.display}' found; no more were expected"
  | .repeated s => s!"the argument '{s.display}' cannot be used multiple times"
  | .unexpected argument => s!"unexpected argument '{argument}' found"
  | .ownerRequired => "the following required arguments were not provided:"
  | .unknownCommand name => s!"unrecognized subcommand '{name}'"

end IncrementalBuild
