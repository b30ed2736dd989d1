import IncrementalBuild.CallError
import IncrementalBuild.Host
import IncrementalBuild.Text.Decimal
/-!
# The owning process

Every server belongs to a process, usually an editor, and ends with it. The owner is named on the
command line, by a marker among a request's defines, or by the name of a running process.

## Main definitions

* `Owner.ofDefines` — the owner that a marker names.
* `Owner.resolve` — the owner of a request. An explicit number wins, then a marker, then a running
  process of the configured name.
* `Host.isRunning` — whether a process is still there.
-/

namespace IncrementalBuild

/-- The largest process number that a host gives out. -/
def largestProcess : Nat := 2147483647

/-- Whether a process is running. Numbers that no process can have name none. -/
def Host.isRunning (h : Host) (process : Nat) : Bool :=
  0 < process && process ≤ largestProcess && h.processes.any fun p => p.1 == process

/-- The lowest number of the running processes with a name. -/
def Host.processNamed (h : Host) (name : String) : Option Nat :=
  ((h.processes.filter fun p => p.2 == name).map Prod.fst).min?

namespace Owner

/-- The marker that precedes a process number in a define. -/
def marker : String := "__OWNER_PROCESS_ID__"

/-- What follows `front` at the front of a text. -/
def dropFront? : List Char → List Char → Option (List Char)
  | [], rest => some rest
  | _ :: _, [] => none
  | a :: front, b :: cs => if a = b then dropFront? front cs else none

/-- The process number that a define carries, if it is a marker with a valid number. -/
def ofDefine? (define : String) : Option Nat :=
  (dropFront? marker.toList define.toList).bind (Decimal.read? Decimal.word)

/-- The process number of the first define that carries one. -/
def ofDefines (defines : List String) : Option Nat := defines.findSome? ofDefine?

/-- The owner of a request. -/
def resolve (h : Host) (explicit : Option Nat) (defines : List String) (name : Option String) :
    Except CallError Nat :=
  match explicit.or (ofDefines defines) with
  | some process => .ok process
  | none =>
    match name with
    | none => .error (.ownerNotFound
        s!"no define {marker}<pid> and no owner process name configured")
    | some name =>
      match h.processNamed name with
      | some process => .ok process
      | none => .error (.ownerNotFound
          s!"no define {marker}<pid> and no running process named '{name}'")

end Owner
end IncrementalBuild
