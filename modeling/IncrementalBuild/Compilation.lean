import IncrementalBuild.Changes
import IncrementalBuild.Engine
import IncrementalBuild.Path.Map
/-!
# Compilations

A compilation is what is kept between two builds of one output: the engine's handle for every
reference and source, the unit they were put into, and the snapshots they are compared with.

## Main definitions

* `Compilation.create` — resolves every reference, parses every source and builds the unit.
* `Compilation.plan`, `Plan.prepare`, `Compilation.apply` — the three steps of bringing a
  compilation up to date: see what changed, get new handles for it, and only then touch the
  compilation. The first two leave the compilation alone, so a request that fails in them changes
  nothing.
* `Compilation.update` — the three steps, one after the other.

## Order

Snapshots are taken before any file is read, so that a file saved while it is read shows up as
changed the next time. References are resolved and applied before sources. The inputs of a
collection are worked on at the same time, so that any of those that cannot be had may be the one
that a request fails for. Within a collection paths are added first, then changed (old handle out,
new handle in), then removed, each in path order.
-/

namespace IncrementalBuild

variable {σ ρ φ υ η : Type}

/-! ### Handles and the unit -/

/-- The handles of one collection together with the unit that holds them. -/
structure Assembly (η υ σ : Type) where
  handles : PathMap η
  unit : υ
  engine : σ

namespace Assembly

/-- Takes the handle of a path out, if it has one. -/
def take (remove : η → υ → σ → υ × σ) (a : Assembly η υ σ) (p : Path) : Assembly η υ σ :=
  match a.handles.find? p with
  | none => a
  | some old =>
    let (unit, engine) := remove old a.unit a.engine
    ⟨a.handles.erase p, unit, engine⟩

/-- Puts the new handle of a path in, in place of the one it had. -/
def put (add remove : η → υ → σ → υ × σ) (fresh : PathMap η) (a : Assembly η υ σ) (p : Path) :
    Assembly η υ σ :=
  match fresh.find? p with
  | none => a
  | some handle =>
    let a := a.take remove p
    let (unit, engine) := add handle a.unit a.engine
    ⟨a.handles.insert p handle, unit, engine⟩

/-- Applies the changes of a collection. -/
def apply (add remove : η → υ → σ → υ × σ) (changes : Changes) (fresh : PathMap η)
    (a : Assembly η υ σ) : Assembly η υ σ :=
  changes.removed.foldl (take remove) (changes.touched.foldl (put add remove fresh) a)

end Assembly

/-! ### Compilations -/

/-- Handles, unit and baselines of one output. -/
structure Compilation (ρ φ υ : Type) where
  references : PathMap ρ
  sources : PathMap φ
  unit : υ
  /-- What the references are compared with. -/
  referenceBaseline : Baseline
  /-- What the sources are compared with. -/
  sourceBaseline : Baseline

/-- What a request asks to change, with the snapshots that show it. -/
structure Plan where
  references : Changes
  sources : Changes
  referenceSnapshot : Snapshot
  sourceSnapshot : Snapshot
  deriving Repr

/-- New handles for everything that was added or changed. -/
structure Fresh (ρ φ : Type) where
  references : PathMap ρ
  sources : PathMap φ

/-- Paths without those that are equal to an earlier one. -/
def distinct : List Path → List Path
  | [] => []
  | p :: rest => p :: (distinct rest).filter fun q => !p.same q

/-- Gets something for every path, with all of them at the same time: each path with what was got
for it, in the order of the paths. -/
def gatherAll {η : Type} (s : Schedule) (task : Path → Task σ η) (paths : List Path) :
    Task σ (List (Path × η)) := do
  let got ← Task.together s (fun p => do return (p, ← task p)) paths
  return paths.filterMap fun p => got.find? fun entry => entry.1 == p

/-- Resolves references, keeping each path with its handle. -/
def resolveAll (engine : Engine σ ρ φ υ) (o : BuildOptions) (s : Schedule) (paths : List Path) :
    Task σ (List (Path × ρ)) :=
  gatherAll s (fun p => engine.resolveReference (o.resolve p)) paths

/-- Parses sources, keeping each path with its handle. -/
def parseAll (engine : Engine σ ρ φ υ) (o : BuildOptions) (s : Schedule) (paths : List Path) :
    Task σ (List (Path × φ)) :=
  gatherAll s (fun p => engine.parseSource (o.resolve p) o.defines) paths

/-- The snapshot of paths that a request names. -/
def capture (o : BuildOptions) (paths : List Path) : Task σ Snapshot :=
  Task.onHost fun h =>
    let (snapshot, h) := Snapshot.capture o.workDir paths h
    (.ok snapshot, h)

/-- Gets new handles for what a plan touches, with the references and the sources taken up in given
orders. -/
def Plan.prepareBy (resolving parsing : Schedule) (p : Plan) (engine : Engine σ ρ φ υ)
    (o : BuildOptions) : Task σ (Fresh ρ φ) := do
  let references ← resolveAll engine o resolving p.references.touched
  let sources ← parseAll engine o parsing p.sources.touched
  return { references := .ofList references, sources := .ofList sources }

/-- Gets new handles for what a plan touches, in the orders of the host. -/
def Plan.prepare (p : Plan) (engine : Engine σ ρ φ υ) (o : BuildOptions) :
    Task σ (Fresh ρ φ) := fun w =>
  p.prepareBy w.host.resolving w.host.parsing engine o w

namespace Compilation

/-- The compilation of a request, from scratch, with the references and the sources taken up in
given orders. -/
def createBy (resolving parsing : Schedule) (engine : Engine σ ρ φ υ) (o : BuildOptions) :
    Task σ (Compilation ρ φ υ) := do
  let referencePaths := distinct o.referencePaths
  let sourcePaths := distinct o.sourcePaths
  let referenceSnapshot ← capture o referencePaths
  let sourceSnapshot ← capture o sourcePaths
  let references ← resolveAll engine o resolving referencePaths
  let sources ← parseAll engine o parsing sourcePaths
  let unit ← engine.buildUnit (sources.map Prod.snd) (references.map Prod.snd) o.unitSettings
  return {
    references := .ofList references
    sources := .ofList sources
    unit
    referenceBaseline := ⟨some referenceSnapshot⟩
    sourceBaseline := ⟨some sourceSnapshot⟩ }

/-- The compilation of a request, from scratch, in the orders of the host. -/
def create (engine : Engine σ ρ φ υ) (o : BuildOptions) : Task σ (Compilation ρ φ υ) := fun w =>
  createBy w.host.resolving w.host.parsing engine o w

/-- What changed for a request since the compilation was last brought up to date. -/
def plan (c : Compilation ρ φ υ) (o : BuildOptions) : Task σ Plan := do
  let referenceSnapshot ← capture o o.referencePaths
  let sourceSnapshot ← capture o o.sourcePaths
  return {
    references := c.referenceBaseline.changesTo referenceSnapshot
    sources := c.sourceBaseline.changesTo sourceSnapshot
    referenceSnapshot
    sourceSnapshot }

/-- Brings a compilation up to date. -/
def apply (c : Compilation ρ φ υ) (engine : Engine σ ρ φ υ) (p : Plan) (fresh : Fresh ρ φ) :
    Task σ (Compilation ρ φ υ) :=
  Task.onEngine fun kept =>
    let r := Assembly.apply engine.addReference engine.removeReference p.references
      fresh.references ⟨c.references, c.unit, kept⟩
    let s := Assembly.apply engine.addSource engine.removeSource p.sources
      fresh.sources ⟨c.sources, r.unit, r.engine⟩
    ({ references := r.handles
       sources := s.handles
       unit := s.unit
       referenceBaseline := c.referenceBaseline.commit p.referenceSnapshot
       sourceBaseline := c.sourceBaseline.commit p.sourceSnapshot }, s.engine)

/-- The three steps together: what changed, and the compilation brought up to date. -/
def update (c : Compilation ρ φ υ) (engine : Engine σ ρ φ υ) (o : BuildOptions) :
    Task σ (Plan × Compilation ρ φ υ) := do
  let plan ← c.plan o
  let fresh ← plan.prepare engine o
  return (plan, ← c.apply engine plan fresh)

end Compilation
end IncrementalBuild
