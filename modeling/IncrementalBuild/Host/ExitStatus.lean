import IncrementalBuild.Host.Signal
/-!
# Exit statuses

How programs end.

## Main definitions

* `ExitStatus` — a program ends by itself with a code, or a signal ends it.
* `ExitStatus.message` — the text of an exit status.
* `ExitStatus.shellCode` — the number the shell makes of it.
-/

namespace IncrementalBuild

/-- How a program ended. -/
inductive ExitStatus
  | code (n : Nat)
  | signal (n : Nat)
  deriving DecidableEq, Repr

namespace ExitStatus

/-- Whether a program ended by itself and without a failure. -/
def succeeded : ExitStatus → Bool
  | .code 0 => true
  | _ => false

/-- The text of an exit status. -/
def message : ExitStatus → String
  | .code n => s!"exit status: {n}"
  | .signal n =>
    match Signal.systemName? n with
    | some name => s!"signal: {n} (SIG{name})"
    | none => s!"signal: {n}"

/-- The number that the shell makes of the end of a program. -/
def shellCode : ExitStatus → Nat
  | .code n => n
  | .signal n => 128 + n

end ExitStatus
end IncrementalBuild
