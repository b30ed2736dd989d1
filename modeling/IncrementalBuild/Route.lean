import IncrementalBuild.Endpoint
import IncrementalBuild.Http
import IncrementalBuild.Service
/-!
# Routes

How a server on the loopback transport answers a request. It has two routes: one to ask for its
health, and one for build calls, which ends in the number of an owner.

## Main definitions

* `Route.of` — the route of a path.
* `Route.ownerOf?` — the owner that the last segment of a build route names.
* `Route.answer` — the response to a request.

## Order

A request can be wrong in many ways, and the first that applies decides: an unknown path, another
method than the route's, a segment that names no owner, a content type other than JSON, a body
that is too long, a body that is not JSON, a body that holds no call, and an owner that is not the
server's own.
-/

namespace IncrementalBuild

/-- The routes of a server. -/
inductive Route
  | health
  /-- The build route of the owner that a segment names. -/
  | build (segment : List Char)
  deriving DecidableEq, Repr

namespace Route

/-- The route of a path. A slash at the end makes another path. -/
def of (path : List Char) : Option Route :=
  match (Blank.pieces (· == '/') path).map String.ofList with
  | ["", "health"] => some .health
  | ["", space, segment] =>
    if space = addressSpace ∧ segment ≠ "" then some (.build segment.toList) else none
  | _ => none

/-- The owner that a segment names: a number, perhaps with percent escapes. -/
def ownerOf? (segment : List Char) : Option Nat :=
  (Http.percentDecode segment).bind (Decimal.read? Decimal.word)

/-- The longest body that is read. -/
def maxBody : Nat := 2 * 1024 * 1024

/-- The version that servers report. -/
def version : String := "0.1.0"

/-- What the health route reports. -/
def healthReport (owner : Nat) : Json.Value :=
  .object [("status", .text "ok"), ("owner", .number owner), ("version", .text version)]

/-- The call in a request for the build route, or the status that refuses it. -/
def callOf (segment : List Char) (owner : Nat) (request : Http.Request) : Except Nat BuildCall :=
  match ownerOf? segment with
  | none => .error 400
  | some asked =>
    if !(request.contentType.any fun t => Http.isJson t.toList) then .error 415
    else if maxBody < request.body.length then .error 413
    else
      match request.body.toString? with
      | none => .error 400
      | some text =>
        match Json.decode Json.request text.toList with
        | .error .malformed => .error 400
        | .error .mismatched => .error 422
        | .ok call => if asked = owner then .ok call else .error 404

/-- The response of an owner's server to a request. -/
def answer {τ : Type} (service : Service τ) (owner : Nat) (request : Http.Request) (state : τ) :
    Http.Response × τ :=
  match of (Http.pathOf request.uri.toList) with
  | none => (⟨404, none⟩, state)
  | some .health =>
    match request.method with
    | "GET" => (⟨200, some (healthReport owner)⟩, state)
    | "HEAD" => (⟨200, none⟩, state)
    | _ => (⟨405, none⟩, state)
  | some (.build segment) =>
    if request.method ≠ "POST" then (⟨405, none⟩, state)
    else
      match callOf segment owner request with
      | .error status => (⟨status, none⟩, state)
      | .ok call =>
        let (reply, state) := service.dispatch call state
        (⟨200, some (Json.ofResponse reply)⟩, state)

end Route
end IncrementalBuild
