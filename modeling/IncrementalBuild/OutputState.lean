import IncrementalBuild.Compilation
import IncrementalBuild.Converter
import IncrementalBuild.Publish
/-!
# Building one output

The state of one output binary between builds. The first request, and every request that does not
continue the previous one, is built in full: a new compilation is created. Any other request is
built incrementally: only what changed goes to the engine. When the request's policy allows it
and nothing relevant changed, the bytes of the last successful emit are written again and the
engine does not run.

## Main definitions

* `Toolchain` — an engine and a converter.
* `KeptOutput` — the bytes of the last successful emit.
* `Report` — how the last request was answered.
* `OutputState.build` — builds one request.
* `emit` — runs the engine and writes its output.
-/

namespace IncrementalBuild

variable {σ ρ φ υ : Type}

/-- What outputs are built with. -/
structure Toolchain (σ ρ φ υ : Type) where
  engine : Engine σ ρ φ υ
  converter : Converter

/-- The bytes of a successful emit. -/
structure KeptOutput where
  binary : Bytes
  /-- The symbols, as they stand beside the binary. -/
  symbols : Option Bytes
  /-- The mode they were made for. -/
  mode : SymbolMode
  deriving DecidableEq, Repr

namespace KeptOutput

/-- Whether the bytes can answer a request. -/
def fits (k : KeptOutput) (o : BuildOptions) : Bool := k.mode == o.debugSymbols

/-- Writes the bytes where a request wants them. -/
def write (k : KeptOutput) (o : BuildOptions) : Host → Except BuildError Unit × Host := fun h =>
  match publish o.outputPath k.binary h with
  | (.error e, h) => (.error e, h)
  | (.ok (), h) =>
    match o.symbolPath?, k.symbols with
    | some p, some symbols => publish p symbols h
    | _, _ => (.ok (), h)

end KeptOutput

/-- Whether a request started a new compilation. -/
inductive BuildKind
  | full
  | incremental
  deriving DecidableEq, Repr

/-- Where the output of a request came from. -/
inductive OutputSource
  | emitted
  | reused
  deriving DecidableEq, Repr

/-- How a request was answered. -/
structure Report where
  kind : BuildKind
  source : OutputSource
  references : Changes := {}
  sources : Changes := {}
  deriving DecidableEq, Repr

/-! ### Emitting -/

/-- Writes the symbols of an emit in the format they were asked for in; whether there were any. -/
def writeSymbols (o : BuildOptions) (symbols : Option Bytes) :
    Host → Except BuildError Bool × Host := fun h =>
  let written (p : Path) (bytes : Bytes) : Except BuildError Bool × Host :=
    match publish p bytes h with
    | (.ok (), h) => (.ok true, h)
    | (.error e, h) => (.error e, h)
  match o.debugSymbols.emitFormat?, symbols with
  | some .native, some bytes => written (nativeSymbolPath o.outputPath) bytes
  | some .portable, some bytes => written (portableSymbolPath o.outputPath) bytes
  | _, _ => (.ok false, h)

/-- Converts the symbols that an emit wrote. When that fails, the build goes on with a warning,
and symbols of an earlier emit are removed, since they do not belong to the new binary. -/
def convertWritten (converter : Converter) (o : BuildOptions) (result : BuildResult) :
    Host → (BuildResult × Option Bytes) × Host := fun h =>
  match convertSymbols converter o.outputPath h with
  | (.ok symbols, h) => ((result, some symbols), h)
  | (.error e, h) =>
    ((result.withWarning s!"warning: debug symbols were not converted: {e.message}", none),
      removeIfPresent (portableSymbolPath o.outputPath) h)

/-- What an emit yields: the result of the build, and the bytes to keep if it succeeded. -/
structure Emitted where
  result : BuildResult
  kept : Option KeptOutput
  deriving Repr

/-- Runs the engine on a unit and writes what it yields. -/
def emit (t : Toolchain σ ρ φ υ) (unit : υ) (o : BuildOptions) : Task σ Emitted := do
  let output ← t.engine.emit unit o.debugSymbols.emitFormat?
  Task.onHost (publish o.outputPath output.binary)
  let written ← Task.onHost (writeSymbols o output.symbols)
  let result := BuildResult.ofDiagnostics output.succeeded output.diagnostics
  let (result, symbols) ←
    if o.debugSymbols = .converted ∧ written then
      Task.onHost fun h =>
        let (converted, h) := convertWritten t.converter o result h
        (.ok converted, h)
    else Task.done (result, output.symbols)
  return {
    result
    kept := if result.succeeded then some ⟨output.binary, symbols, o.debugSymbols⟩ else none }

/-! ### Building -/

/-- The state of one output. -/
structure OutputState (ρ φ υ : Type) where
  /-- The last request that reached the compilation. -/
  options : Option BuildOptions := none
  compilation : Option (Compilation ρ φ υ) := none
  /-- The bytes of the last emit, if it succeeded. -/
  kept : Option KeptOutput := none
  report : Option Report := none
  /-- How many compilations were created. -/
  generation : Nat := 0

/-- How a build ended, and what it leaves behind. -/
structure Outcome (σ ρ φ υ : Type) where
  result : Except Failure BuildResult
  state : OutputState ρ φ υ
  world : World σ

/-- Whether a policy lets an earlier output stand in for a new one after these changes. -/
def ReusePolicy.allows : ReusePolicy → (references sources : Changes) → Bool
  | .none, _, _ => false
  | .whenNoChange, references, sources => references.isEmpty && sources.isEmpty
  | .whenNoSourceChange, references, sources =>
    sources.isEmpty && references.isMembershipUnchanged

namespace OutputState

/-- The kept output that may answer a request after these changes, if there is one. -/
def reusable? (s : OutputState ρ φ υ) (o : BuildOptions) (references sources : Changes) :
    Option KeptOutput :=
  if o.outputReuse.allows references sources then s.kept.filter (·.fits o) else none

/-- Emits a compilation's unit. The old bytes are forgotten first, whatever happens, and a crash
leaves no report. -/
def emitUnit (t : Toolchain σ ρ φ υ) (o : BuildOptions) (unit : υ) (report : Report)
    (s : OutputState ρ φ υ) (w : World σ) : Outcome σ ρ φ υ :=
  match emit t unit o w with
  | (.ok e, w) => ⟨.ok e.result, { s with kept := e.kept, report := some report }, w⟩
  | (.error .crash, w) => ⟨.error .crash, { s with kept := none }, w⟩
  | (.error (.error e), w) =>
    ⟨.error (.error e), { s with kept := none, report := some report }, w⟩

/-- Writes the kept bytes again. -/
def reuse (o : BuildOptions) (k : KeptOutput) (report : Report) (s : OutputState ρ φ υ)
    (w : World σ) : Outcome σ ρ φ υ :=
  match k.write o w.host with
  | (.ok (), host) => ⟨.ok .success, { s with report := some report }, { w with host }⟩
  | (.error e, host) =>
    ⟨.error (.error e), { s with report := some report }, { w with host }⟩

/-- Builds a request with a new compilation. -/
def buildFull (t : Toolchain σ ρ φ υ) (o : BuildOptions) (s : OutputState ρ φ υ) (w : World σ) :
    Outcome σ ρ φ υ :=
  match Compilation.create t.engine o w with
  | (.error e, w) => ⟨.error e, s, w⟩
  | (.ok c, w) =>
    emitUnit t o c.unit { kind := .full, source := .emitted }
      { s with
        options := some o, compilation := some c, kept := none, generation := s.generation + 1 } w

/-- Builds a request by bringing the compilation up to date. -/
def buildIncremental (t : Toolchain σ ρ φ υ) (o : BuildOptions) (c : Compilation ρ φ υ)
    (s : OutputState ρ φ υ) (w : World σ) : Outcome σ ρ φ υ :=
  match c.update t.engine o w with
  | (.error e, w) => ⟨.error e, s, w⟩
  | (.ok (plan, c), w) =>
    let s := { s with options := some o, compilation := some c }
    let report (source : OutputSource) : Report :=
      { kind := .incremental, source, references := plan.references, sources := plan.sources }
    match s.reusable? o plan.references plan.sources with
    | some k => reuse o k (report .reused) s w
    | none => emitUnit t o c.unit (report .emitted) s w

/-- The compilation that a request continues, if it continues one. -/
def continued? (s : OutputState ρ φ υ) (o : BuildOptions) : Option (Compilation ρ φ υ) :=
  match s.options with
  | some previous => if previous.sameIdentity o then s.compilation else none
  | none => none

/-- Builds a request, incrementally if it continues the previous one. -/
def build (t : Toolchain σ ρ φ υ) (o : BuildOptions) (s : OutputState ρ φ υ) (w : World σ) :
    Outcome σ ρ φ υ :=
  match s.continued? o with
  | some c => buildIncremental t o c s w
  | none => buildFull t o s w

end OutputState
end IncrementalBuild
