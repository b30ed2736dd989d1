import IncrementalBuild.Diagnostic
import IncrementalBuild.Options
import IncrementalBuild.Task
/-!
# Compile engines

An engine does the compiling. It turns references and sources into handles, puts handles into a
unit, and emits the unit. The rest of the library stores handles and hands them back; it never
looks into them.

## Main definitions

* `Engine` — the operations, over the types of handles and units and over the state `σ` that the
  engine keeps for itself.
* `EmitOutput` — what emitting a unit yields.
-/

namespace IncrementalBuild

/-- What emitting a unit yields. Compile errors are among the diagnostics. -/
structure EmitOutput where
  binary : Bytes := []
  symbols : Option Bytes := none
  diagnostics : List Diagnostic := []
  succeeded : Bool := false
  deriving DecidableEq, Repr

/-- A compiler: `ρ` are handles of references, `φ` of sources, and `υ` are units. -/
structure Engine (σ ρ φ υ : Type) where
  /-- Finds a reference. -/
  resolveReference : Path → Task σ ρ
  /-- Reads and parses a source under the given defines. -/
  parseSource : Path → List String → Task σ φ
  /-- Builds a unit from scratch. -/
  buildUnit : List φ → List ρ → UnitSettings → Task σ υ
  addReference : ρ → υ → σ → υ × σ
  removeReference : ρ → υ → σ → υ × σ
  addSource : φ → υ → σ → υ × σ
  removeSource : φ → υ → σ → υ × σ
  /-- Emits a unit, with symbols in a format if one is given. -/
  emit : υ → Option SymbolFormat → Task σ EmitOutput

end IncrementalBuild
