import IncrementalBuild.Frame
import IncrementalBuild.Route
import IncrementalBuild.Service
/-!
# Exchanges

One call and its answer, between a client and the service of a server that accepted its
connection.

## Main definitions

* `Exchange.overSocket` — over a local socket: a frame each way.
* `Exchange.overHttp` — over the loopback transport: a request to the build route, and a response.
-/

namespace IncrementalBuild.Exchange

variable {τ : Type}

/-! ### Local sockets -/

/-- What a client makes of an answer that arrives in pieces, before the connection ends. -/
def received (pieces : List Bytes) : Except CallError BuildResult :=
  (Frame.read Frame.replyOf pieces).bind fun r => r.1.toExcept

/-- What a client makes of a connection that ends without an answer. -/
def dropped : Except CallError BuildResult := received []

/-- What a client makes of a connection that ends while the client still writes. -/
def cutOff : Except CallError BuildResult :=
  .error (.protocol "Failed to write message: Broken pipe (os error 32)")

/-- Whether a server refuses a call for the length of its body. -/
def isRefused (call : BuildCall) : Bool :=
  match Frame.lengthOf (Frame.requestLayout call) with
  | .ok length => Frame.maxLength < length
  | .error _ => false

/-- An exchange over a local socket. The call arrives in pieces, as `there` cuts it, and the answer
as `back` does. A server that refuses a call for its length ends the connection once it has read
the length, while the client still writes the rest. -/
def overSocket (there back : Bytes → List Bytes) (service : Service τ) (call : BuildCall)
    (state : τ) : Except CallError BuildResult × τ :=
  if isRefused call then (cutOff, state)
  else
    match Frame.ofRequest call with
    | .error cause => (.error cause, state)
    | .ok frame =>
      match service.serve (there frame) state with
      | (some answer, state) => (received (back answer), state)
      | (none, state) => (dropped, state)

/-! ### Hypertext -/

/-- The names of the statuses that servers answer with. -/
def reason : Nat → String
  | 200 => "OK"
  | 400 => "Bad Request"
  | 404 => "Not Found"
  | 405 => "Method Not Allowed"
  | 413 => "Payload Too Large"
  | 415 => "Unsupported Media Type"
  | 422 => "Unprocessable Entity"
  | _ => "Unknown"

/-- The request for a call. -/
def requestOf (e : Endpoint) (call : BuildCall) : Http.Request where
  method := "POST"
  uri := e.route
  contentType := some "application/json"
  body := Bytes.ofString (Json.ofRequest call).render

/-- What a client makes of a response. -/
def resultOf (e : Endpoint) (response : Http.Response) : Except CallError BuildResult :=
  if response.status = 404 then .error (.unreachable s!"{e.display}: no server for this owner")
  else if response.status < 200 ∨ 300 ≤ response.status then
    .error (.protocol s!"{e.display} answered {response.status} {reason response.status}")
  else
    let invalid : CallError := .protocol s!"Invalid response from {e.display}"
    match response.body with
    | none => .error invalid
    | some v =>
      match Json.decode Json.response v.render.toList with
      | .ok reply => reply.toExcept
      | .error _ => .error invalid

/-- An exchange over the loopback transport with the server of an owner. -/
def overHttp (service : Service τ) (owner : Nat) (e : Endpoint) (call : BuildCall) (state : τ) :
    Except CallError BuildResult × τ :=
  let (response, state) := Route.answer service owner (requestOf e call) state
  (resultOf e response, state)

end IncrementalBuild.Exchange
