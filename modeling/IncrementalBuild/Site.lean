import IncrementalBuild.Client
import IncrementalBuild.Exchange
import IncrementalBuild.Server
/-!
# Sites

A site is a host on which servers listen and clients call them. The time of a site is that of the
client who acts on it. A server goes on with a call that its client has left; what the call does to
the files is done when it begins.

## Main definitions

* `Site`, `Site.open`, `Site.close` — sites, and a server that begins and ends to listen there.
* `Site.send` — one attempt at a call.
* `Site.threads`, `Site.spawning` — the two ways to launch a server: on a thread of the calling
  process, and as a process of its own.
* `Site.surroundings` — what a client can do on a site.
-/

namespace IncrementalBuild

/-- A host with servers. -/
structure Site (τ : Type) where
  host : Host
  /-- The state of what the servers offer. -/
  state : τ
  /-- The servers that began to listen, by their numbers, with what they offer. -/
  servers : List (Nat × Server × Service (τ × Host)) := []

namespace Site

variable {τ η : Type}

/-- Starts a server that offers a service: it listens, or fails with a cause. -/
def «open» (server : Server) (service : (number : Nat) → Service (τ × Host)) (s : Site τ) :
    Except CallError Unit × Server × Site τ :=
  match server.start s.host with
  | (.error cause, server, host) => (.error cause, server, { s with host })
  | (.ok (), server, host) =>
    let servers := match server.number with
      | some number => (number, server, service number) :: s.servers
      | none => s.servers
    (.ok (), server, { s with host, servers })

/-- Ends a server that listened. -/
def close (server : Server) (s : Site τ) : Server × Site τ :=
  let (server, host) := server.finish s.host
  (server, { s with host })

/-- Ends the servers with a number from `first` on, without their doing anything about it. -/
def abandonFrom (first : Nat) (s : Site τ) : Site τ :=
  let numbers := List.range' first (s.host.servers - first)
  { s with host := numbers.foldl Host.stopListening s.host }

/-! ### Attempts -/

/-- Whether a connection that fails for this cause found no server. -/
def isAbsence : FileError → Bool
  | .notFound => true
  | .connectionRefused => true
  | _ => false

/-- One attempt at a call over a local socket. -/
def sendLocal (e : Endpoint) (path : Path) (call : BuildCall) (s : Site τ) :
    Except CallError BuildResult × Site τ :=
  match Access.connectSocket path s.host with
  | (.error cause, host) =>
    (.error (if isAbsence cause then .unreachable s!"{e.display}: {cause.message}"
      else .io path cause.message), { s with host })
  | (.ok number, host) =>
    match s.servers.lookup number with
    | none => (Exchange.dropped, { s with host })
    | some (_, service) =>
      let (result, state, host) :=
        Exchange.overSocket List.singleton List.singleton service call (s.state, host)
      (result, { s with host, state })

/-- One attempt at a call over the loopback transport. -/
def sendHttp (e : Endpoint) (port : Nat) (call : BuildCall) (s : Site τ) :
    Except CallError BuildResult × Site τ :=
  let url := (Endpoint.url? e).getD e.display
  let absent : CallError := .unreachable s!"{e.display}: error sending request for url ({url})"
  match Access.connectPort port s.host with
  | (.error _, host) => (.error absent, { s with host })
  | (.ok number, host) =>
    match s.servers.lookup number with
    | none => (.error absent, { s with host })
    | some (server, service) =>
      let (result, state, host) :=
        Exchange.overHttp service server.owner e call (s.state, host)
      (result, { s with host, state })

/-- One attempt at a call. -/
def send (e : Endpoint) (call : BuildCall) (s : Site τ) : Except CallError BuildResult × Site τ :=
  match e with
  | .localSocket _ path => sendLocal e path call s
  | .loopbackHttp _ port => sendHttp e port call s

/-! ### Launchers -/

/-- Servers on threads of the calling process. A thread ends when its server could not begin to
listen; that is all that a handle tells. -/
def threads (t : Transport) (service : (number : Nat) → Service (τ × Host)) :
    Launcher (Site τ) Bool where
  launch owner s :=
    match s.open { owner, transport := t } service with
    | (.error _, _, s) => (.ok true, s)
    | (.ok (), _, s) => (.ok false, s)
  hasExited exited s := (exited, exited, s)

/-- Servers as processes of their own, from a program and the arguments that stand before the
server's. They run in the background; a handle holds the time at which the process ends. -/
def spawning (runner : Runner) (program : Path) (args : List String) : Launcher (Site τ) Nat where
  launch owner s :=
    match Access.run runner program.text (args ++ ["server", toString owner]) s.host with
    | (.error cause, host) =>
      (.error (.launch s!"Failed to spawn '{program.text}': {cause.message}"), { s with host })
    | (.ok _, host) => (.ok host.clock, { s with host := { host with clock := s.host.clock } })
  hasExited ends s := (decide (ends ≤ s.host.clock), ends, s)

/-- A site at another time. -/
def «at» (time : Nat) (s : Site τ) : Site τ := { s with host := { s.host with clock := time } }

/-- What a client can do on a site. -/
def surroundings (launcher : Launcher (Site τ) η) : Surroundings (Site τ) η where
  toLauncher := launcher
  now s := s.host.clock
  wait millis s := s.at (s.host.clock + millis)
  leave := «at»
  send := send

end Site
end IncrementalBuild
