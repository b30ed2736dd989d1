import IncrementalBuild.Path.Basic
import IncrementalBuild.Timestamp
/-!
# Snapshots of a file collection

A snapshot lists paths with the modification times they were seen with, in path order and each
path once. When a collection names a path twice, its first mention counts.

## Main definitions

* `FileStamp` — a path and a modification time.
* `Snapshot.ofStamps` — the snapshot of stamps in any order.
-/

namespace IncrementalBuild

/-- A path with the modification time it was seen with. -/
structure FileStamp where
  /-- The path, as it was spelled. -/
  path : Path
  /-- The modification time. -/
  modified : Timestamp
  deriving DecidableEq, Repr

/-- Paths with times, in path order and each path once. -/
structure Snapshot where
  /-- The paths with their times. -/
  stamps : List FileStamp := []
  deriving DecidableEq, Repr

namespace Snapshot

/-- Removes every stamp that follows one of an equal path. -/
def dropRepeats : List FileStamp → List FileStamp
  | [] => []
  | r :: rest =>
    match dropRepeats rest with
    | [] => [r]
    | s :: others => if r.path.same s.path then r :: others else r :: s :: others

/-- The snapshot of stamps in any order: they are put in path order, equal paths staying in the
order they came in, and of equal paths the first is kept. -/
def ofStamps (stamps : List FileStamp) : Snapshot :=
  ⟨dropRepeats (stamps.mergeSort fun a b => a.path.notAfter b.path)⟩

/-- The paths of a snapshot. -/
def paths (s : Snapshot) : List Path := s.stamps.map FileStamp.path

/-- The number of paths. -/
def size (s : Snapshot) : Nat := s.stamps.length

/-- Whether there are no paths. -/
def isEmpty (s : Snapshot) : Bool := s.stamps.isEmpty

end Snapshot
end IncrementalBuild
