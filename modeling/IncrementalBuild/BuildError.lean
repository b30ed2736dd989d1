import IncrementalBuild.Host.FileError
import IncrementalBuild.Path.Basic
/-!
# Why a build could not be carried out

Compile errors are part of a build's result. The causes here are those for which there is no
result.

## Main definitions

* `BuildError`, `BuildError.message` — the causes and their texts.
* `BuildError.isInputError` — whether one of the request's files is to blame.
* `Failure` — a cause, or a crash of the compiler's engine that nothing handles.
-/

namespace IncrementalBuild

/-- Why a build has no result. -/
inductive BuildError
  /-- A reference could not be found or loaded. -/
  | unresolvedReference (path : Path) (reason : String)
  /-- A source could not be read or parsed. -/
  | parse (path : Path) (reason : String)
  /-- The compiler itself failed. -/
  | engine (reason : String)
  /-- The symbol converter failed. -/
  | symbolConversion (reason : String)
  /-- An output could not be read or written. -/
  | artifact (path : Path) (cause : FileError)
  /-- The host failed. -/
  | io (cause : FileError)
  /-- An earlier build crashed and left its state unusable. -/
  | poisoned (reason : String)
  deriving DecidableEq, Repr

namespace BuildError

/-- The text of a cause. -/
def message : BuildError → String
  | .unresolvedReference path reason => s!"unresolved reference: {path.text}: {reason}"
  | .parse path reason => s!"cannot parse source: {path.text}: {reason}"
  | .engine reason => s!"compile engine failure: {reason}"
  | .symbolConversion reason => s!"debug symbol conversion failed: {reason}"
  | .artifact path cause => s!"IO error at {path.text}: {cause.message}"
  | .io cause => s!"IO error: {cause.message}"
  | .poisoned reason => s!"build state lock poisoned: {reason}"

/-- Whether one of the request's own files caused it. -/
def isInputError : BuildError → Bool
  | .unresolvedReference _ _ | .parse _ _ => true
  | _ => false

end BuildError

/-- How a computation can end without a value. -/
inductive Failure
  /-- It reports a cause. -/
  | error (cause : BuildError)
  /-- It crashes, and nothing up to the caller handles that. -/
  | crash
  deriving DecidableEq, Repr

end IncrementalBuild
