import IncrementalBuild.Diagnostic
import IncrementalBuild.Options
import IncrementalBuild.CallError
/-!
# Messages

What a client sends to a server, and what comes back.
-/

namespace IncrementalBuild

/-- A call: build these options for this project. -/
structure BuildCall where
  /-- The root directory of the calling project. -/
  project : String := ""
  options : BuildOptions := {}
  deriving DecidableEq, Repr, Inhabited

/-- The answer to a call. -/
inductive Reply
  /-- The build was carried out; compile errors are part of its result. -/
  | built (result : BuildResult)
  /-- The call could not be handled. -/
  | failed (message : String)
  deriving DecidableEq, Repr

/-- What a client makes of an answer. -/
def Reply.toExcept : Reply → Except CallError BuildResult
  | .built result => .ok result
  | .failed message => .error (.remote message)

end IncrementalBuild
