import IncrementalBuild.Path.Basic
/-!
# Diagnostics and build results

## Main definitions

* `Severity`, `Diagnostic`, `Diagnostic.format` — what a compiler reports, and one line for it.
* `BuildResult.ofDiagnostics` — how reports become the warnings and errors of a build. A warning
  that was escalated counts as an error, remarks are dropped, and an error fails the build.
-/

namespace IncrementalBuild

/-- How serious a report is. -/
inductive Severity
  | hidden
  | info
  | warning
  | error
  deriving DecidableEq, Repr, Inhabited

namespace Severity

/-- The lower-case form of a text, for the letters of ASCII. -/
def lower (s : String) : String := String.ofList (s.toList.map Char.toLower)

/-- The severity a compiler's word stands for, in any mix of cases; unknown words are hidden. -/
def ofName (word : String) : Severity :=
  match lower word with
  | "error" => .error
  | "warning" => .warning
  | "info" => .info
  | "note" => .info
  | _ => .hidden

end Severity

/-- A place in a source file; lines and columns count from one. -/
structure SourceLocation where
  file : String
  line : Nat
  column : Nat
  deriving DecidableEq, Repr

/-- The written form `file(line,column)`. -/
def SourceLocation.format (l : SourceLocation) : String := s!"{l.file}({l.line},{l.column})"

/-- One report of a compiler. -/
structure Diagnostic where
  severity : Severity
  code : String
  message : String
  location : Option SourceLocation
  /-- The compiler counts this warning as an error. -/
  escalated : Bool
  deriving DecidableEq, Repr

/-- The line `file(line,column): kind code: message`; without a place it starts at the kind. -/
def Diagnostic.format (d : Diagnostic) (kind : String) : String :=
  match d.location with
  | some place => s!"{place.format}: {kind} {d.code}: {d.message}"
  | none => s!"{kind} {d.code}: {d.message}"

/-- The outcome of one build. -/
structure BuildResult where
  succeeded : Bool := false
  warnings : List String := []
  errors : List String := []
  deriving DecidableEq, Repr, Inhabited

namespace BuildResult

/-- A success with nothing to report. -/
def success : BuildResult := { succeeded := true }

/-- A failure with one error line. -/
def failure (message : String) : BuildResult := { errors := [message] }

/-- Takes one report into a result. -/
def add (r : BuildResult) (d : Diagnostic) : BuildResult :=
  match d.severity, d.escalated with
  | .warning, false => { r with warnings := r.warnings ++ [d.format "warning"] }
  | .warning, true | .error, _ =>
    { r with errors := r.errors ++ [d.format "error"], succeeded := false }
  | .info, _ | .hidden, _ => r

/-- The result of a compiler run that reported `diagnostics`, in their order. -/
def ofDiagnostics (compilerSucceeded : Bool) (diagnostics : List Diagnostic) : BuildResult :=
  diagnostics.foldl add { succeeded := compilerSucceeded }

/-- The result with one more warning line. -/
def withWarning (r : BuildResult) (line : String) : BuildResult :=
  { r with warnings := r.warnings ++ [line] }

end BuildResult
end IncrementalBuild
