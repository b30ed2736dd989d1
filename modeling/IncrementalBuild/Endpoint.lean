import IncrementalBuild.Path.Basic
/-!
# Endpoints

Where the server of one owning process listens, and where its clients look for it. Both derive
the endpoint from the same transport settings and the owner's process number, so they meet when
the owner is the same.

## Main definitions

* `TransportKind`, `Transport` — how clients and servers talk to each other.
* `Endpoint.ofOwner` — the endpoint of an owner: a socket file named after it in a directory of
  its own, or a route that ends in its number on a port that all owners share.
-/

namespace IncrementalBuild

/-- How clients and servers talk to each other. -/
inductive TransportKind
  /-- A socket file on the same host. -/
  | localSocket
  /-- Hypertext transfer on the loopback interface. -/
  | loopbackHttp
  deriving DecidableEq, Repr

namespace TransportKind

/-- The name of a kind in settings. -/
def name : TransportKind → String
  | .localSocket => "local_socket"
  | .loopbackHttp => "loopback_http"

/-- All kinds. -/
def all : List TransportKind := [.localSocket, .loopbackHttp]

end TransportKind

/-- The port that is used when none is configured. -/
def defaultPort : Nat := 52000

/-- How a client reaches servers. -/
structure Transport where
  kind : TransportKind := .localSocket
  /-- The port for hypertext transfer. -/
  port : Nat := defaultPort
  /-- The directory for socket files, if one is configured. -/
  socketDir : Option Path := none
  deriving DecidableEq, Repr

namespace Transport

/-- The directory for socket files where none is configured. -/
def defaultSocketDir : Path := ⟨"/tmp"⟩

/-- The directory that holds the directory of sockets. -/
def socketRoot (t : Transport) : Path := t.socketDir.getD defaultSocketDir

end Transport

/-- The name that all addresses share. -/
def addressSpace : String := "kiln.build"

/-- Where the server of one owner listens. -/
inductive Endpoint
  /-- A socket file. -/
  | localSocket (owner : Nat) (path : Path)
  /-- A route on a port of the loopback interface. -/
  | loopbackHttp (owner port : Nat)
  deriving DecidableEq, Repr

namespace Endpoint

/-- The socket file of an owner. -/
def socketPath (t : Transport) (owner : Nat) : Path :=
  (t.socketRoot.join ⟨addressSpace⟩).join ⟨s!"{owner}.sock"⟩

/-- The endpoint of an owner. -/
def ofOwner (t : Transport) (owner : Nat) : Endpoint :=
  match t.kind with
  | .localSocket => .localSocket owner (socketPath t owner)
  | .loopbackHttp => .loopbackHttp owner t.port

/-- The kind of transport an endpoint belongs to. -/
def kind : Endpoint → TransportKind
  | .localSocket _ _ => .localSocket
  | .loopbackHttp _ _ => .loopbackHttp

/-- The owner an endpoint belongs to. -/
def owner : Endpoint → Nat
  | .localSocket owner _ => owner
  | .loopbackHttp owner _ => owner

/-- The route of a build call. -/
def route (e : Endpoint) : String := s!"/{addressSpace}/{e.owner}"

/-- The address of a build call for hypertext transfer. -/
def url? : Endpoint → Option String
  | .loopbackHttp owner port =>
    some s!"http://127.0.0.1:{port}{route (.loopbackHttp owner port)}"
  | .localSocket _ _ => none

/-- An endpoint as messages name it. -/
def display : Endpoint → String
  | .localSocket owner path =>
    s!"unix://localhost{route (.localSocket owner path)} ({path.text})"
  | .loopbackHttp owner port => s!"http://127.0.0.1:{port}{route (.loopbackHttp owner port)}"

end Endpoint
end IncrementalBuild
