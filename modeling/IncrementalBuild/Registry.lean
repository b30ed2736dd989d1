import IncrementalBuild.OutputState
import IncrementalBuild.Text.Map
/-!
# The registry

One server builds many outputs of one project. The registry keeps the state of each, and drops
them all when a request comes from another project.

## Main definitions

* `Slot` — the place of one output's state. A crash leaves the slot poisoned: the state in it may
  be half-changed and is not used again.
* `Registry` — the project, the slot of each output, and all slots.
* `Registry.entry`, `Registry.buildAt` — the two steps of a build: find or make the output's slot,
  then build in it.
* `Registry.build` — both steps.

## Slots

A call that found its slot keeps it, even if a call for another project drops the table in the
meantime. So slots are numbered and stay, and the table maps outputs to numbers.
-/

namespace IncrementalBuild

variable {σ ρ φ υ : Type}

/-- The place of one output's state. -/
structure Slot (ρ φ υ : Type) where
  state : OutputState ρ φ υ := {}
  /-- A build in this slot crashed. -/
  poisoned : Bool := false

/-- The states of a project's outputs. -/
structure Registry (ρ φ υ : Type) where
  /-- The project that the outputs belong to. -/
  project : Option String := none
  /-- The number of the slot of each output. -/
  table : TextMap Nat := {}
  slots : List (Slot ρ φ υ) := []

namespace Registry

/-- The cause that is reported for a poisoned slot. -/
def poisonCause : BuildError :=
  .poisoned ("Build registry lock poisoned (thread panicked): "
    ++ "poisoned lock: another task failed inside")

/-- The registry for a project: without outputs, if it was another one before. -/
def forProject (project : String) (r : Registry ρ φ υ) : Registry ρ φ υ :=
  if r.project = some project then r else { r with project := some project, table := {} }

/-- The number of an output's slot in a project, which is made if it is missing. -/
def entry (project output : String) (r : Registry ρ φ υ) : Nat × Registry ρ φ υ :=
  let r := r.forProject project
  match r.table.find? output with
  | some n => (n, r)
  | none =>
    let n := r.slots.length
    (n, { r with table := r.table.insert output n, slots := r.slots ++ [{}] })

/-- Builds a request in a slot. -/
def buildAt (t : Toolchain σ ρ φ υ) (o : BuildOptions) (n : Nat) (r : Registry ρ φ υ)
    (w : World σ) : Except Failure BuildResult × Registry ρ φ υ × World σ :=
  let slot := r.slots.getD n {}
  if slot.poisoned then (.error (.error poisonCause), r, w)
  else
    let done := slot.state.build t o w
    let crashed := match done.result with
      | .error .crash => true
      | _ => false
    (done.result, { r with slots := r.slots.set n ⟨done.state, crashed⟩ }, done.world)

/-- Builds a request for a project. -/
def build (t : Toolchain σ ρ φ υ) (project : String) (o : BuildOptions) (r : Registry ρ φ υ)
    (w : World σ) : Except Failure BuildResult × Registry ρ φ υ × World σ :=
  let (n, r) := r.entry project o.output
  r.buildAt t o n w

/-- The number of outputs. -/
def size (r : Registry ρ φ υ) : Nat := r.table.size

/-- Whether there are no outputs. -/
def isEmpty (r : Registry ρ φ υ) : Bool := r.size == 0

/-- The state of an output, if it has a slot. -/
def inspect (output : String) (r : Registry ρ φ υ) :
    Except BuildError (Option (OutputState ρ φ υ)) :=
  match r.table.find? output with
  | none => .ok none
  | some n =>
    let slot := r.slots.getD n {}
    if slot.poisoned then .error poisonCause else .ok (some slot.state)

end Registry
end IncrementalBuild
