import IncrementalBuild.Path.Basic
/-!
# Build options

What one build request asks for. Paths in it are texts relative to the work directory.

## Main definitions

* `SymbolMode`, `SymbolFormat` — which symbol file a build leaves, and which one the
  compiler has to write for it.
* `ReusePolicy` — when earlier output may stand in for a new emit.
* `BuildOptions`, `BuildOptions.sameIdentity` — a request, and which requests continue the same
  compilation.
* `UnitSettings` — the part of a request that the compiler's unit is built with.
-/

namespace IncrementalBuild

/-- The debug-symbol file that accompanies a binary. -/
inductive SymbolMode
  /-- No debug symbols. -/
  | none
  /-- The compiler's own format, beside the binary with another extension. -/
  | native
  /-- The compiler's own format, turned into the portable one by an external tool. -/
  | converted
  /-- The portable format, written by the compiler. -/
  | portable
  deriving DecidableEq, Repr, Inhabited

/-- A format in which the compiler can write symbols. -/
inductive SymbolFormat
  | native
  | portable
  deriving DecidableEq, Repr

/-- The symbol file in the compiler's own format: the binary's path with extension `pdb`. -/
def nativeSymbolPath (binary : Path) : Path := binary.withExtension "pdb"

/-- The symbol file in the portable format: the binary's path followed by `.mdb`. -/
def portableSymbolPath (binary : Path) : Path := binary.appendText ".mdb"

namespace SymbolMode

/-- The format the compiler has to write. -/
def emitFormat? : SymbolMode → Option SymbolFormat
  | .none => Option.none
  | .native | .converted => some .native
  | .portable => some .portable

/-- The symbol file that finally stands beside `binary`. -/
def symbolPath? (binary : Path) : SymbolMode → Option Path
  | .none => Option.none
  | .native => some (nativeSymbolPath binary)
  | .converted | .portable => some (portableSymbolPath binary)

/-- All modes, in their order on the wire. -/
def all : List SymbolMode := [.none, .native, .converted, .portable]

/-- The name of a mode in messages and settings. -/
def name : SymbolMode → String
  | .none => "none"
  | .native => "native"
  | .converted => "converted"
  | .portable => "portable"

end SymbolMode

/-- When an earlier output may be written again instead of emitting. -/
inductive ReusePolicy
  /-- Never. -/
  | none
  /-- When neither sources nor references changed. -/
  | whenNoChange
  /-- When sources are unchanged and no reference was added or removed. -/
  | whenNoSourceChange
  deriving DecidableEq, Repr, Inhabited

namespace ReusePolicy

/-- All policies, in their order on the wire. -/
def all : List ReusePolicy := [.none, .whenNoChange, .whenNoSourceChange]

/-- The name of a policy in messages and settings. -/
def name : ReusePolicy → String
  | .none => "none"
  | .whenNoChange => "when_no_change"
  | .whenNoSourceChange => "when_no_source_change"

end ReusePolicy

/-- The settings a compiler's unit is built with. -/
structure UnitSettings where
  assemblyName : String := ""
  defines : List String := []
  allowUnsafe : Bool := false
  suppressed : List String := []
  extraFlags : List String := []
  deriving DecidableEq, Repr, Inhabited

/-- One build request for one output. -/
structure BuildOptions where
  /-- The directory that all paths are relative to. -/
  workDirectory : String := ""
  assemblyName : String := ""
  /-- The output binary. -/
  output : String := ""
  defines : List String := []
  references : List String := []
  files : List String := []
  debugSymbols : SymbolMode := .none
  outputReuse : ReusePolicy := .none
  allowUnsafe : Bool := false
  /-- Flags handed to the compiler as they are. -/
  extraFlags : List String := []
  /-- Diagnostic codes that the compiler must not report. -/
  suppressed : List String := []
  deriving DecidableEq, Repr, Inhabited

namespace BuildOptions

/-- Whether `b` can continue the compilation that was set up for `a`. -/
def sameIdentity (a b : BuildOptions) : Bool :=
  a.workDirectory == b.workDirectory && a.assemblyName == b.assemblyName && a.output == b.output
    && a.defines == b.defines && a.suppressed == b.suppressed

/-- The work directory. -/
def workDir (o : BuildOptions) : Path := ⟨o.workDirectory⟩

/-- A path of the request, relative to the work directory. -/
def resolve (o : BuildOptions) (p : Path) : Path := o.workDir.join p

/-- Where the output binary is written. -/
def outputPath (o : BuildOptions) : Path := o.resolve ⟨o.output⟩

/-- Where the final symbol file is written, if there is one. -/
def symbolPath? (o : BuildOptions) : Option Path := o.debugSymbols.symbolPath? o.outputPath

/-- The settings of the compiler's unit. -/
def unitSettings (o : BuildOptions) : UnitSettings where
  assemblyName := o.assemblyName
  defines := o.defines
  allowUnsafe := o.allowUnsafe
  suppressed := o.suppressed
  extraFlags := o.extraFlags

/-- The requested references as paths. -/
def referencePaths (o : BuildOptions) : List Path := o.references.map Path.mk

/-- The requested sources as paths. -/
def sourcePaths (o : BuildOptions) : List Path := o.files.map Path.mk

end BuildOptions
end IncrementalBuild
