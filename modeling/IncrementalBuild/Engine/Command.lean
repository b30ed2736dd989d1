import IncrementalBuild.Engine
import IncrementalBuild.Json.Decoder
import IncrementalBuild.Path.Map
/-!
# The engine that runs a compiler

This engine runs a compiler program for every emit. A source is read once, when it is parsed, and
its text is staged into a scratch directory on every emit, so that the compiler sees what was
parsed even if the file has changed since.

## Main definitions

* `CompilerCommand`, `Compiler` — which program is run, and what running it does.
* `CommandUnit` — everything one run needs; sources and references are keyed by their paths.
* `Command.stage`, `Command.arguments` — the files and the arguments of a run.
* `Command.diagnostics` — the reports among the lines that the compiler printed.
* `Command.engine` — the engine.

## The compiler's interface

The compiler gets the configured arguments, then `--name`, `--out`, the options of the unit, and
last the staged sources. It prints one JSON object per report on a line of its own; all other
lines are ignored. When it fails without a report, its exit status and its error output are
reported instead.
-/

namespace IncrementalBuild

/-- Which compiler program is run. -/
structure CompilerCommand where
  program : Path := ⟨""⟩
  /-- Arguments before all others. -/
  args : List String := []
  deriving DecidableEq, Repr, Inhabited

/-- A compiler: its program, and what running programs does. -/
structure Compiler extends CompilerCommand where
  runner : Runner

/-- A source with the text it had when it was parsed. -/
structure ParsedSource where
  path : Path
  text : String
  deriving DecidableEq, Repr

/-- Everything one run of the compiler needs. -/
structure CommandUnit where
  settings : UnitSettings := {}
  /-- The text of each source. -/
  sources : PathMap String := {}
  references : PathMap PUnit := {}
  deriving Repr

namespace Command

variable {σ α : Type}

/-! ### Inputs -/

/-- Finds a reference: a file that is there. -/
def resolveReference (p : Path) : Task σ Path := fun w =>
  match Access.stat p w.host with
  | (.ok (.file _ _ _), host) => (.ok p, { w with host })
  | (.ok _, host) => (.error (.error (.unresolvedReference p "not a file")), { w with host })
  | (.error e, host) => (.error (.error (.unresolvedReference p e.message)), { w with host })

/-- Reads a source. -/
def parseSource (p : Path) : Task σ ParsedSource := do
  let text ← Task.access (Access.readText p) fun e => .parse p e.message
  return ⟨p, text⟩

/-- Puts handles into a new unit. -/
def unitOf (sources : List ParsedSource) (references : List Path) (settings : UnitSettings) :
    CommandUnit where
  settings := settings
  sources := .ofList (sources.map fun s => (s.path, s.text))
  references := .ofList (references.map fun p => (p, ⟨⟩))

/-! ### Staging -/

/-- A source with the file it is staged in. -/
structure Staged where
  file : Path
  source : Path
  text : String
  deriving DecidableEq, Repr

/-- A number with at least five digits. -/
def fiveDigits (n : Nat) : String :=
  let ds := (toString n).toList
  String.ofList (List.replicate (5 - ds.length) '0' ++ ds)

/-- The name of the staged file of the source with a number. -/
def stagedName (n : Nat) (source : Path) : String :=
  fiveDigits n ++ "_" ++ source.fileName?.getD "source"

/-- The staged files of sources in a directory, numbered from `n`. -/
def stageFrom (dir : Path) : Nat → List (Path × String) → List Staged
  | _, [] => []
  | n, (source, text) :: rest =>
    ⟨dir.join ⟨stagedName n source⟩, source, text⟩ :: stageFrom dir (n + 1) rest

/-- The staged files of a unit's sources, in path order. -/
def stage (dir : Path) (u : CommandUnit) : List Staged := stageFrom dir 0 u.sources.entries

/-- Writes staged files. -/
def writeStaged (files : List Staged) : Task σ PUnit := do
  let _ ← Task.forAll (fun s : Staged =>
    Task.access (Access.write s.file (Bytes.ofString s.text)) (.artifact s.file)) files
  return ⟨⟩

/-! ### Arguments -/

/-- The word for a symbol format. -/
def formatName : SymbolFormat → String
  | .native => "native"
  | .portable => "portable"

/-- An option before every value. -/
def each (option : String) (values : List String) : List String :=
  values.flatMap fun v => [option, v]

/-- The binary that a run in a scratch directory writes. -/
def binaryFile (dir : Path) : Path := dir.join ⟨"out.bin"⟩

/-- The symbols that a run in a scratch directory writes. -/
def symbolFile (dir : Path) : Path := dir.join ⟨"out.sym"⟩

/-- The arguments of a run in a scratch directory. -/
def arguments (command : Compiler) (dir : Path) (u : CommandUnit)
    (format : Option SymbolFormat) (files : List Staged) : List String :=
  command.args
    ++ ["--name", u.settings.assemblyName, "--out", (binaryFile dir).text]
    ++ (match format with
      | some f => ["--symbols", (symbolFile dir).text, "--symbol-format", formatName f]
      | none => [])
    ++ each "--define" u.settings.defines
    ++ each "--reference" (u.references.keys.map Path.text)
    ++ each "--nowarn" u.settings.suppressed
    ++ (if u.settings.allowUnsafe then ["--unsafe"] else [])
    ++ u.settings.extraFlags
    ++ files.map fun s => s.file.text

/-! ### Reports -/

/-- A report as the compiler prints it. -/
structure PrintedReport where
  severity : String := ""
  code : Option String := none
  message : String := ""
  file : Option String := none
  line : Option Nat := none
  column : Option Nat := none
  escalated : Bool := false
  deriving DecidableEq, Repr

/-- The bound of line and column numbers. -/
def positionBound : Nat := 18446744073709551616

open Json in
/-- Reads a printed report. -/
def printedReport : Decoder PrintedReport :=
  record [
    .must "severity" text fun v r => { r with severity := v },
    .of "code" (optional text) fun v r => { r with code := v },
    .must "message" text fun v r => { r with message := v },
    .of "file" (optional text) fun v r => { r with file := v },
    .of "line" (optional (natBelow positionBound)) fun v r => { r with line := v },
    .of "column" (optional (natBelow positionBound)) fun v r => { r with column := v },
    .of "warning_as_error" bool fun v r => { r with escalated := v }] {}

/-- The name a report shows for a file: a staged file stands for its source. -/
def shownFile (files : List Staged) (name : String) : String :=
  ((files.find? fun s => s.file.text == name).map fun s => s.source.text).getD name

/-- A printed report as a diagnostic. -/
def PrintedReport.diagnostic (files : List Staged) (r : PrintedReport) : Diagnostic where
  severity := Severity.ofName r.severity
  code := r.code.getD ""
  message := r.message
  location := r.file.map fun name => ⟨shownFile files name, r.line.getD 1, r.column.getD 1⟩
  escalated := r.escalated

/-- The report on a line, if it holds one. -/
def reportOfLine? (files : List Staged) (line : List Char) : Option Diagnostic :=
  match Json.decode printedReport (Blank.trim line) with
  | .ok r => some (r.diagnostic files)
  | .error _ => none

/-- The reports among the lines of an output. -/
def diagnostics (files : List Staged) (output : String) : List Diagnostic :=
  (Blank.lines output.toList).filterMap (reportOfLine? files)

/-- The report on a run that failed without one. -/
def failureReport (status : ExitStatus) (errors : String) : Diagnostic where
  severity := .error
  code := ""
  message := s!"compiler exited with {status.message}: "
    ++ String.ofList (Blank.trim errors.toList)
  location := none
  escalated := false

/-- The reports of a finished run. -/
def reportsOf (files : List Staged) (run : Finished) : List Diagnostic :=
  let printed := diagnostics files run.output.toLossyString
  if printed.isEmpty && !run.status.succeeded then
    [failureReport run.status run.errors.toLossyString]
  else printed

/-! ### Emitting -/

/-- Runs a task in a new scratch directory, which is removed afterwards. -/
def inScratch (t : Path → Task σ α) : Task σ α := do
  let dir ← Task.access Access.makeScratch .io
  fun w =>
    match t dir w with
    | (outcome, w) => (outcome, { w with host := (Access.dropScratch dir w.host).2 })

/-- The binary that a run wrote; a run that failed need not have written one. -/
def takeBinary (dir : Path) (succeeded : Bool) : Task σ Bytes := fun w =>
  match Access.read (binaryFile dir) w.host with
  | (.ok bytes, host) => (.ok bytes, { w with host })
  | (.error e, host) =>
    (if succeeded then .error (.error (.artifact (binaryFile dir) e)) else .ok [],
      { w with host })

/-- The symbols that a run wrote, if they were asked for and are there. -/
def takeSymbols (dir : Path) (format : Option SymbolFormat) : Task σ (Option Bytes) := fun w =>
  match format with
  | none => (.ok none, w)
  | some _ =>
    match Access.read (symbolFile dir) w.host with
    | (.ok bytes, host) => (.ok (some bytes), { w with host })
    | (.error _, host) => (.ok none, { w with host })

/-- Runs the compiler on a unit. -/
def emit (command : Compiler) (u : CommandUnit) (format : Option SymbolFormat) :
    Task σ EmitOutput :=
  inScratch fun dir => do
    let files := stage dir u
    writeStaged files
    let run ← Task.access
      (Access.run command.runner command.program.text (arguments command dir u format files))
      fun e => .engine s!"Failed to run compiler '{command.program.text}': {e.message}"
    let succeeded := run.status.succeeded
    let reports := reportsOf files run
    let binary ← takeBinary dir succeeded
    let symbols ← takeSymbols dir format
    return { binary, symbols, diagnostics := reports, succeeded }

/-- The engine that runs a compiler. It keeps nothing for itself. -/
def engine (command : Compiler) : Engine σ Path ParsedSource CommandUnit where
  resolveReference := resolveReference
  parseSource p _ := parseSource p
  buildUnit sources references settings := Task.done (unitOf sources references settings)
  addReference p u s := ({ u with references := u.references.insert p ⟨⟩ }, s)
  removeReference p u s := ({ u with references := u.references.erase p }, s)
  addSource f u s := ({ u with sources := u.sources.insert f.path f.text }, s)
  removeSource f u s := ({ u with sources := u.sources.erase f.path }, s)
  emit := emit command

end Command
end IncrementalBuild
