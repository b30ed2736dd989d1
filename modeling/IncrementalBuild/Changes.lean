import IncrementalBuild.Snapshot
/-!
# Changes between two snapshots

## Main definitions

* `Changes.between` — what was added, changed and removed from one snapshot to the next. A
  path changed when its time differs, in either direction.
* `Baseline` — remembers the last committed snapshot. Before one was committed, nothing counts as
  a change.
-/

namespace IncrementalBuild

/-- The difference between two snapshots; each list is in path order. -/
structure Changes where
  /-- Paths of the new snapshot only. -/
  added : List Path := []
  /-- Paths of both snapshots with different times, spelled as in the new one. -/
  changed : List Path := []
  /-- Paths of the old snapshot only. -/
  removed : List Path := []
  deriving DecidableEq, Repr, Inhabited

namespace Changes

/-- Whether nothing was added, changed or removed. -/
def isEmpty (c : Changes) : Bool := c.added.isEmpty && c.changed.isEmpty && c.removed.isEmpty

/-- Whether both snapshots have the same paths. -/
def isMembershipUnchanged (c : Changes) : Bool := c.added.isEmpty && c.removed.isEmpty

/-- The paths that need a new handle: added and changed ones. -/
def touched (c : Changes) : List Path := c.added ++ c.changed

/-- The changes between two lists of stamps in path order. -/
def merge : List FileStamp → List FileStamp → Changes
  | [], news => { added := news.map FileStamp.path }
  | olds, [] => { removed := olds.map FileStamp.path }
  | o :: olds, n :: news =>
    if n.path.same o.path then
      let rest := merge olds news
      if n.modified = o.modified then rest else { rest with changed := n.path :: rest.changed }
    else if n.path.before o.path then
      let rest := merge (o :: olds) news
      { rest with added := n.path :: rest.added }
    else
      let rest := merge olds (n :: news)
      { rest with removed := o.path :: rest.removed }
termination_by olds news => olds.length + news.length

/-- The changes from the snapshot `old` to the snapshot `new`. -/
def between (old new : Snapshot) : Changes := merge old.stamps new.stamps

end Changes

/-- What one file collection is compared with: the snapshot that was committed last, if any. -/
structure Baseline where
  /-- The committed snapshot. -/
  committed : Option Snapshot := none
  deriving DecidableEq, Repr

namespace Baseline

/-- Whether a snapshot was committed. -/
def isSet (b : Baseline) : Bool := b.committed.isSome

/-- The changes from the committed snapshot to `snapshot`; none if nothing was committed. -/
def changesTo (b : Baseline) (snapshot : Snapshot) : Changes :=
  match b.committed with
  | some old => .between old snapshot
  | none => {}

/-- Takes `snapshot` as what is compared with from now on. -/
def commit (_ : Baseline) (snapshot : Snapshot) : Baseline := ⟨some snapshot⟩

/-- The changes to `snapshot`, and the baseline with `snapshot` committed. -/
def advance (b : Baseline) (snapshot : Snapshot) : Changes × Baseline :=
  (b.changesTo snapshot, b.commit snapshot)

end Baseline
end IncrementalBuild
