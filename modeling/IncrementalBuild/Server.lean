import IncrementalBuild.CallError
import IncrementalBuild.Endpoint
import IncrementalBuild.Host.Sockets
import IncrementalBuild.Owner
/-!
# The life of a server

A server belongs to an owner. It starts, listens at the owner's endpoint until it is told to shut
down or the owner exits, and closes:

`idle → starting → listening → closing → terminated`

When the owner is not running or the endpoint cannot be opened, it goes from `starting` straight
to `terminated`.

## Main definitions

* `Server`, `ServerState` — a server with the states it has published.
* `Server.open` — opens an endpoint, in steps. A socket file that accepts a connection belongs to
  a live server and is left in place; any other is removed first.
* `Server.start`, `Server.finish` — the two halves of a life, up to listening and from then on.
* `Server.stopBy` — what ends the time between them.
* `Server.run` — a whole life.
-/

namespace IncrementalBuild

/-- The states of a server. -/
inductive ServerState
  | idle
  | starting
  | listening
  | closing
  | terminated
  deriving DecidableEq, Repr

/-- The name of a state. -/
def ServerState.name : ServerState → String
  | .idle => "Idle"
  | .starting => "Starting"
  | .listening => "Listening"
  | .closing => "Closing"
  | .terminated => "Terminated"

/-- A server of an owner. -/
structure Server where
  /-- The owner; a server of owner zero runs until it is told to shut down. -/
  owner : Nat
  transport : Transport
  /-- The states it has published, the latest first. -/
  published : List ServerState := [.idle]
  /-- The number under which it listens. -/
  number : Option Nat := none
  deriving DecidableEq, Repr

namespace Server

/-- The state of a server. -/
def state (s : Server) : ServerState := s.published.headD .idle

/-- Where a server listens. -/
def endpoint (s : Server) : Endpoint := Endpoint.ofOwner s.transport s.owner

/-- Publishes the next state. -/
def enter (s : Server) (next : ServerState) : Server := { s with published := next :: s.published }

/-! ### Opening an endpoint -/

/-- A step of opening an endpoint, with its failure as the endpoint's. -/
def step {α : Type} (e : Endpoint) (a : Access α) : Host → Except CallError α × Host := fun h =>
  match a h with
  | (.ok v, h) => (.ok v, h)
  | (.error cause, h) => (.error (.bind e.display cause.message), h)

/-- Creates the directory of a socket file. -/
def makeDirectory (p : Path) : Access Unit :=
  match p.parent? with
  | none => fun h => (.ok (), h)
  | some dir => Access.createDirectories dir

/-- Whether something stands at the path of a socket file. -/
def isThere (p : Path) (h : Host) : Bool × Host :=
  match Access.stat p h with
  | (.ok _, h) => (true, h)
  | (.error _, h) => (false, h)

/-- Whether a socket file accepts a connection. -/
def isLive (p : Path) (h : Host) : Bool × Host :=
  match Access.connectSocket p h with
  | (.ok _, h) => (true, h)
  | (.error _, h) => (false, h)

/-- Makes way for a socket file: a live one is left in place, and any other is removed. -/
def clear (e : Endpoint) (p : Path) : Host → Except CallError Unit × Host := fun h =>
  match isThere p h with
  | (false, h) => (.ok (), h)
  | (true, h) =>
    match isLive p h with
    | (true, h) => (.error (.bind e.display "another server is already listening"), h)
    | (false, h) => step e (Access.remove p) h

/-- Opens an endpoint: the number under which the server listens there. -/
def «open» (e : Endpoint) : Host → Except CallError Nat × Host := fun h =>
  match e with
  | .loopbackHttp _ port => step e (Access.listenPort port) h
  | .localSocket _ p =>
    match step e (makeDirectory p) h with
    | (.error cause, h) => (.error cause, h)
    | (.ok (), h) =>
      match clear e p h with
      | (.error cause, h) => (.error cause, h)
      | (.ok (), h) => step e (Access.listenSocket p) h

/-! ### A life -/

/-- Starts a server: it listens, or terminates with a cause. -/
def start (s : Server) (h : Host) : Except CallError Unit × Server × Host :=
  let s := s.enter .starting
  if s.owner ≠ 0 ∧ !h.isRunning s.owner then
    (.error (.ownerNotFound s!"process {s.owner} is not running"), s.enter .terminated, h)
  else
    match Server.open s.endpoint h with
    | (.error cause, h) => (.error cause, s.enter .terminated, h)
    | (.ok number, h) => (.ok (), { s.enter .listening with number := some number }, h)

/-- What a listening server notices. -/
inductive Notice
  /-- It is told to shut down. -/
  | shutdown
  /-- It looks whether its owner is running. -/
  | ownerSeen (running : Bool)
  /-- It cannot go on serving. -/
  | broken (cause : CallError)
  deriving DecidableEq, Repr

/-- How serving ends after notices, if one of them ends it. Owner zero is never looked at. -/
def stopBy (owner : Nat) : List Notice → Option (Except CallError Unit)
  | [] => none
  | .shutdown :: _ => some (.ok ())
  | .broken cause :: _ => some (.error cause)
  | .ownerSeen running :: rest =>
    if owner ≠ 0 ∧ !running then some (.ok ()) else stopBy owner rest

/-- Removes the socket file of an endpoint, if it has one. -/
def removeSocket (e : Endpoint) (h : Host) : Host :=
  match e with
  | .localSocket _ p => (Access.remove p h).2
  | .loopbackHttp _ _ => h

/-- Ends a server that listened: it stops accepting and removes its socket file. -/
def finish (s : Server) (h : Host) : Server × Host :=
  let h := match s.number with
    | some number => h.stopListening number
    | none => h
  ((s.enter .closing).enter .terminated, removeSocket s.endpoint h)

/-- A whole life. While the server listens it notices what it notices, and `meanwhile` happens to
the host; without a notice that ends it, it still listens. -/
def run (s : Server) (notices : List Notice) (meanwhile : Host → Host) (h : Host) :
    Option (Except CallError Unit) × Server × Host :=
  match s.start h with
  | (.error cause, s, h) => (some (.error cause), s, h)
  | (.ok (), s, h) =>
    match stopBy s.owner notices with
    | none => (none, s, meanwhile h)
    | some served =>
      let (s, h) := s.finish (meanwhile h)
      (some served, s, h)

end Server
end IncrementalBuild
