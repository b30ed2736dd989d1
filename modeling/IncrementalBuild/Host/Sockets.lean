import IncrementalBuild.Host
/-!
# Sockets

Listening at a socket file or at a port, and connecting there. Servers are numbered in the order
in which they begin to listen, and a connection leads to the number of a server.

## Main definitions

* `Access.connectSocket`, `Access.connectPort` — the server that accepts a connection.
* `Access.listenSocket`, `Access.listenPort` — begins to listen, as the next server.
* `Host.portFor?` — where a server comes to listen that asks for a port.
* `Host.stopListening` — ends it. A socket file stays behind, and accepts nothing any more.
-/

namespace IncrementalBuild

/-- The bytes that a socket address has room for. The path of a socket file ends in a NUL there. -/
def socketRoom : Nat := 108

/-- Whether a path names a socket apart from all files: a NUL at its front says so. -/
def Path.isApartFromFiles (p : Path) : Bool := p.text.toList.head? == some '\x00'

/-- Why a path cannot stand in a socket address. -/
def Path.socketFault? (p : Path) : Option FileError :=
  let cs := p.text.toList
  let size := Path.byteLength cs
  if p.isApartFromFiles then if socketRoom < size then some .socketNameTooLong else none
  else if '\x00' ∈ cs then some .nulInSocketPath
  else if socketRoom ≤ size then some .socketPathTooLong
  else none

namespace Files

/-- The server that accepts connections at a socket file. No server listens apart from files. -/
def connect (fs : Files) (p : Path) : Except FileError Nat :=
  match p.socketFault? with
  | some e => .error e
  | none =>
    if p.isApartFromFiles then .error .connectionRefused
    else
      match fs.stat p with
      | .ok (.socket (some server)) => .ok server
      | .ok _ => .error .connectionRefused
      | .error e => .error e

/-- Creates the socket file of a server. -/
def listen (fs : Files) (p : Path) (server : Nat) : Except FileError Files :=
  match p.socketFault? with
  | some e => .error e
  | none => do
    let t ← fs.target p
    match t.name? with
    | none => .error .addressInUse
    | some name =>
      let (loc, entry) ← fs.entryOf t name
      if entry.isSome then .error .addressInUse
      else if t.separated then .error .notFound
      else .ok (fs.put loc (.socket (some server)))

/-- Socket files without a server behind them. -/
def abandon (fs : Files) (server : Nat) : Files :=
  { fs with entries := fs.entries.map fun x =>
      if x.2 = .socket (some server) then (x.1, .socket none) else x }

end Files

namespace Host

/-- The ports where a server may come to listen that asks for a port. To ask for port zero is to
ask for none in particular. -/
def portsFor (port : Nat) : List Nat := if port = 0 then List.range' 32768 28232 else [port]

/-- Whether nobody listens at a port. -/
def isFree (h : Host) (port : Nat) : Bool := (h.ports.lookup port).isNone

/-- Where a server comes to listen that asks for a port. -/
def portFor? (h : Host) (port : Nat) : Option Nat := (portsFor port).find? h.isFree

end Host

namespace Access

/-- The server that accepts a connection at a socket file. -/
def connectSocket (p : Path) : Access Nat := look fun fs => fs.connect p

/-- The server that accepts a connection at a port. -/
def connectPort (port : Nat) : Access Nat := fun h =>
  match h.enter with
  | (some e, h) => (.error e, h)
  | (none, h) =>
    match h.ports.lookup port with
    | some server => (if h.loopbackOpen then .ok server else .error .connectionRefused, h)
    | none => (.error .connectionRefused, h)

/-- Begins to listen at a new socket file. -/
def listenSocket (p : Path) : Access Nat := fun h =>
  let server := h.servers
  match change (fun fs => fs.listen p server) h with
  | (.ok (), h) => (.ok server, { h with servers := server + 1 })
  | (.error e, h) => (.error e, h)

/-- Begins to listen at a port. -/
def listenPort (port : Nat) : Access Nat := fun h =>
  match h.enter with
  | (some e, h) => (.error e, h)
  | (none, h) =>
    match h.portFor? port with
    | none => (.error .addressInUse, h)
    | some port =>
      let server := h.servers
      (.ok server, { h with ports := (port, server) :: h.ports, servers := server + 1 })

end Access

/-- The host after a server stopped listening. -/
def Host.stopListening (h : Host) (server : Nat) : Host :=
  { h with
    files := h.files.abandon server
    ports := h.ports.filter fun x => x.2 != server }

end IncrementalBuild
