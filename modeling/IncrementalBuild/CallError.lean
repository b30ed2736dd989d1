import IncrementalBuild.BuildError
import IncrementalBuild.Text.Decimal
/-!
# Why a build call failed

What can go wrong between a client and a server, beside the causes for which a build itself has
no result.

## Main definitions

* `CallError`, `CallError.message` — the causes and their texts.
* `CallError.isUnreachable` — whether the call may be repeated once a server listens.
-/

namespace IncrementalBuild

/-- Why a call to a server, or a server itself, failed. -/
inductive CallError
  /-- The host failed at a path. -/
  | io (path : Path) (reason : String)
  /-- An endpoint could not be opened. -/
  | bind (address reason : String)
  /-- Nothing listens at an endpoint. -/
  | unreachable (reason : String)
  /-- A message was malformed or unexpected. -/
  | protocol (reason : String)
  /-- The server handled the call and reported a failure. -/
  | remote (report : String)
  /-- The owning process could not be found. -/
  | ownerNotFound (reason : String)
  /-- The server could not be started, or ended before it accepted calls. -/
  | launch (reason : String)
  /-- The client gave up, after so many milliseconds. -/
  | timeout (millis : Nat)
  /-- A build cause. -/
  | core (cause : BuildError)
  deriving DecidableEq, Repr

namespace CallError

/-- The text of a cause. -/
def message : CallError → String
  | .io path reason => s!"IO error at {path.text}: {reason}"
  | .bind address reason => s!"Cannot open endpoint {address}: {reason}"
  | .unreachable reason => s!"Endpoint not reachable: {reason}"
  | .protocol reason => s!"Protocol error: {reason}"
  | .remote report => report
  | .ownerNotFound reason => s!"Owning process not found: {reason}"
  | .launch reason => s!"Server launch failed: {reason}"
  | .timeout millis => s!"No build result after {Decimal.ofMillis millis}"
  | .core cause => s!"Core error: {cause.message}"

/-- Whether the call may be repeated once a server listens. -/
def isUnreachable : CallError → Bool
  | .unreachable _ => true
  | _ => false

/-- A failure of the host at no particular path. -/
def ofFileError (e : FileError) : CallError := .io ⟨""⟩ e.message

end CallError
end IncrementalBuild
