/-!
# Points in time

Modification times have nanosecond resolution and may lie before the epoch.
-/

namespace IncrementalBuild

/-- A point in time, in nanoseconds since the beginning of 1970. -/
structure Timestamp where
  /-- Nanoseconds since the epoch. -/
  nanos : Int
  deriving DecidableEq, Repr, Inhabited

namespace Timestamp

/-- Nanoseconds in a second. -/
def perSecond : Int := 1000000000

/-- The beginning of 1970. -/
def epoch : Timestamp := ⟨0⟩

/-- A whole second and nanoseconds after it. -/
def ofParts (seconds nanos : Int) : Timestamp := ⟨seconds * perSecond + nanos⟩

/-- The whole second at or before a time. -/
def seconds (t : Timestamp) : Int := t.nanos.fdiv perSecond

/-- The nanoseconds after that second. -/
def fraction (t : Timestamp) : Int := t.nanos.fmod perSecond

/-- The next point in time. -/
def next (t : Timestamp) : Timestamp := ⟨t.nanos + 1⟩

end Timestamp
end IncrementalBuild
