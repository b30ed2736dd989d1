import IncrementalBuild.Client
import IncrementalBuild.Converter
import IncrementalBuild.Endpoint
import IncrementalBuild.Engine.Command
import IncrementalBuild.Json.Message
import IncrementalBuild.OutputState
import IncrementalBuild.Programs
/-!
# Settings

What a settings file configures. Every field may be left out.

## Main definitions

* `Settings`, `Settings.load` — the settings, and reading them from a file.
* `Settings.transport`, `Settings.client` — how servers are reached, and how long clients wait.
* `Settings.toolchain` — what a server builds with.
-/

namespace IncrementalBuild

/-- What a settings file configures. -/
structure Settings where
  debugSymbols : SymbolMode := .portable
  outputReuse : ReusePolicy := .whenNoChange
  /-- The transport, if it is not the usual one. -/
  transportKind : Option TransportKind := none
  port : Nat := defaultPort
  socketDir : Option String := none
  /-- The seconds after which a client gives up; zero means never. -/
  timeoutSeconds : Nat := 300
  /-- The name of the process to take as owner when no marker names one. -/
  ownerName : Option String := none
  compiler : CompilerCommand := {}
  /-- The symbol conversion tool, if it need not be looked for. -/
  symbolConverter : Option String := none
  deriving DecidableEq, Repr

/-- Why settings could not be loaded. -/
inductive SettingsError
  | unreadable (path : Path) (cause : FileError)
  | invalid (path : Path)
  deriving DecidableEq, Repr

namespace SettingsError

/-- The text of a cause, without what lies behind it. -/
def summary : SettingsError → String
  | .unreadable path _ => s!"Failed to read settings {path.text}"
  | .invalid path => s!"Invalid settings {path.text}"

/-- The text of a cause. -/
def message : SettingsError → String
  | .unreadable path cause => s!"{(unreadable path cause).summary}: {cause.message}"
  | .invalid path => (invalid path).summary

end SettingsError

namespace Json

/-- Reads a kind of transport. -/
def transportKind : Decoder TransportKind := choice (TransportKind.all.map fun k => (k.name, k))

/-- Reads which compiler is run. -/
def compilerCommand : Decoder CompilerCommand :=
  record [
    .of "program" text fun v c => { c with program := ⟨v⟩ },
    .of "args" (list text) fun v c => { c with args := v }] {}

/-- Reads settings. -/
def settings : Decoder Settings :=
  record [
    .of "debug_symbols" symbolMode fun v s => { s with debugSymbols := v },
    .of "output_reuse" reusePolicy fun v s => { s with outputReuse := v },
    .of "transport" (optional transportKind) fun v s => { s with transportKind := v },
    .of "http_base_port" (natBelow 65536) fun v s => { s with port := v },
    .of "socket_dir" (optional text) fun v s => { s with socketDir := v },
    .of "client_timeout_secs" (natBelow 18446744073709551616)
      fun v s => { s with timeoutSeconds := v },
    .of "owner_process_name" (optional text) fun v s => { s with ownerName := v },
    .of "compiler" compilerCommand fun v s => { s with compiler := v },
    .of "symbol_converter" (optional text) fun v s => { s with symbolConverter := v }] {}

/-- Settings as a value. -/
def ofSettings (s : Settings) : Value :=
  .object [
    ("debug_symbols", .text s.debugSymbols.name),
    ("output_reuse", .text s.outputReuse.name),
    ("transport", .text? (s.transportKind.map TransportKind.name)),
    ("http_base_port", .number s.port),
    ("socket_dir", .text? s.socketDir),
    ("client_timeout_secs", .number s.timeoutSeconds),
    ("owner_process_name", .text? s.ownerName),
    ("compiler", .object [
      ("program", .text s.compiler.program.text), ("args", .texts s.compiler.args)]),
    ("symbol_converter", .text? s.symbolConverter)]

end Json

namespace Settings

/-- Reads settings from a file; without one they are all left out. -/
def load (fs : Files) : Option Path → Except SettingsError Settings
  | none => .ok {}
  | some path =>
    match fs.readText path with
    | .error cause => .error (.unreadable path cause)
    | .ok text =>
      match Json.decode Json.settings text.toList with
      | .ok s => .ok s
      | .error _ => .error (.invalid path)

/-- How servers are reached. -/
def transport (s : Settings) : Transport where
  kind := s.transportKind.getD .localSocket
  port := s.port
  socketDir := s.socketDir.map Path.mk

/-- How a client calls servers. -/
def client (s : Settings) : ClientConfig where
  transport := s.transport
  timeout := if s.timeoutSeconds = 0 then none else some (s.timeoutSeconds * 1000)

/-- What is reported when settings name no compiler. -/
def noCompiler : String := "No compiler configured (set \"compiler.program\" in the settings file)"

/-- What a server on a host builds with. -/
def toolchain (s : Settings) (h : Host) :
    Except String (Toolchain PUnit Path ParsedSource CommandUnit) :=
  if s.compiler.program.text = "" then .error noCompiler
  else
    .ok {
      engine := Command.engine s.compiler
      converter := match s.symbolConverter with
        | some program => .tool ⟨program⟩
        | none => .ofHost none h }

/-- The log file of a server: in the directory `Temp` of the work directory, if there is one, else
in the work directory itself. -/
def logPath (fs : Files) (workDir : Path) : Path :=
  let temporary := workDir.join ⟨"Temp"⟩
  (if fs.isDirectory temporary then temporary else workDir).join ⟨"kiln-server.log"⟩

end Settings
end IncrementalBuild
