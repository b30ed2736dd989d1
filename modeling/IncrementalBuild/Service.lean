import IncrementalBuild.Frame
import IncrementalBuild.Registry
/-!
# Build services

A server hands each call to a service and wraps what comes back into an answer.

## Main definitions

* `Service` — services, over the state `τ` they keep.
* `Service.dispatch` — the answer to a call. Causes and crashes become failures with a text.
* `Service.echo` — a service that builds nothing and answers with what it was asked.
* `Service.ofRegistry` — the service of a registry.
* `Service.inTurn` — the same on a host where builds take time: those in one slot take turns.
* `Service.beside`, `Service.within`, `Service.numbered` — a service next to a host, in a work
  directory of its own, and with one of many states.
* `Service.serve`, `Service.handle` — one connection on a local socket: one call is read and
  answered; a connection that does not bring a whole call in time is dropped.
-/

namespace IncrementalBuild

/-- Something that carries out builds for projects. -/
abbrev Service (τ : Type) :=
  (project : String) → BuildOptions → τ → Except Failure BuildResult × τ

namespace Service

variable {τ : Type}

/-- The answer to a call. -/
def dispatch (service : Service τ) (call : BuildCall) (state : τ) : Reply × τ :=
  match service call.project call.options state with
  | (.ok result, state) => (.built result, state)
  | (.error (.error cause), state) => (.failed cause.message, state)
  | (.error .crash, state) =>
    (.failed s!"Build of {call.options.output} did not complete: the build crashed", state)

/-- Whether a reference is one that the echoing service does not find. -/
def isMissing (reference : String) : Bool := "missing".toList.isPrefixOf reference.toList

/-- Counts the calls, and answers each with its number. A reference whose name starts with
`missing` and an empty output are refused; suppressed codes come back as errors. -/
def echo : Service Nat := fun project o count =>
  let n := count + 1
  let result : Except Failure BuildResult :=
    match o.references.find? isMissing with
    | some p => .error (.error (.unresolvedReference ⟨p⟩ "file not found"))
    | none =>
      if o.output = "" then .error (.error (.engine "no output"))
      else
        .ok {
          succeeded := o.suppressed.isEmpty
          warnings := [s!"{project}: {o.output} #{n}"]
          errors := o.suppressed }
  (result, n)

/-- The service of a registry, which keeps the registry and the engine's own state. -/
def ofRegistry {σ ρ φ υ : Type} (t : Toolchain σ ρ φ υ) :
    Service ((Registry ρ φ υ × σ) × Host) := fun project o ((r, engine), host) =>
  let (result, r, w) := r.build t project o ⟨host, engine⟩
  (result, (r, w.engine), w.host)

/-- The service of a registry that also keeps when each slot is free again. A build begins when the
one before it in its slot has ended. -/
def inTurn {σ ρ φ υ : Type} (t : Toolchain σ ρ φ υ) :
    Service (((Registry ρ φ υ × σ) × (Nat → Nat)) × Host) :=
  fun project o ((memory, free), host) =>
    let n := (memory.1.entry project o.output).1
    let (result, memory, host) :=
      ofRegistry t project o (memory, { host with clock := max host.clock (free n) })
    (result, (memory, fun i => if i = n then host.clock else free i), host)

/-- A service that leaves the host alone, on a host. -/
def beside (service : Service τ) : Service (τ × Host) := fun project o (state, host) =>
  let (result, state) := service project o state
  (result, state, host)

/-- A service that works in a directory of its own. -/
def within (dir : Location) (service : Service (τ × Host)) : Service (τ × Host) :=
  fun project o (state, host) =>
    let (result, state, after) := service project o (state, host.goTo dir)
    (result, state, after.goTo host.files.workDir)

/-- A service whose state is one of many. -/
def numbered (n : Nat) (service : Service (τ × Host)) : Service ((Nat → τ) × Host) :=
  fun project o (states, host) =>
    let (result, state, host) := service project o (states n, host)
    (result, fun i => if i = n then state else states i, host)

/-- Serves one connection, on which these pieces arrive in time: the bytes of the answer, or none
if the connection is dropped. -/
def serve (service : Service τ) (arriving : List Bytes) (state : τ) : Option Bytes × τ :=
  match Frame.read Frame.requestOf arriving with
  | .error _ => (none, state)
  | .ok (call, _) =>
    let (reply, state) := service.dispatch call state
    ((Frame.ofReply reply).toOption, state)

/-- The pieces that arrive within a limit. Each comes with the time since the one before it. -/
def inTime : (limit : Nat) → List (Nat × Bytes) → List Bytes
  | _, [] => []
  | limit, (delay, piece) :: rest =>
    if delay ≤ limit then piece :: inTime (limit - delay) rest else []

/-- Serves one connection, with a limit on the time in which a whole call has to arrive. -/
def handle (service : Service τ) (limit : Nat) (arrivals : List (Nat × Bytes)) (state : τ) :
    Option Bytes × τ :=
  service.serve (inTime limit arrivals) state

end Service
end IncrementalBuild
