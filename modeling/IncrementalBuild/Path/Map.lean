import IncrementalBuild.Path.Basic
/-!
# Maps keyed by paths

A map from paths to values in which equal paths are one key, whatever their texts, and which
lists its keys in path order.

## Main definitions

* `PathMap.insert` — sets the value of a path; a key that is already there keeps its spelling.
* `PathMap.replace` — sets the value of a path together with the spelling of its key.
* `PathMap.erase`, `PathMap.find?`, `PathMap.contains`, `PathMap.size`, `PathMap.ofList`.
-/

namespace IncrementalBuild

/-- A map from paths to values; its entries are in path order. -/
structure PathMap (α : Type) where
  /-- The keys with their values. -/
  entries : List (Path × α) := []
  deriving Repr

namespace PathMap

variable {α : Type}

/-- The map without keys. -/
def empty : PathMap α := {}

/-- Sets the value of `p` in a list of entries, at its place in path order. -/
def insertEntry (p : Path) (v : α) : List (Path × α) → List (Path × α)
  | [] => [(p, v)]
  | (q, w) :: rest =>
    if p.same q then (q, v) :: rest
    else if p.before q then (p, v) :: (q, w) :: rest
    else (q, w) :: insertEntry p v rest

/-- Sets the value of a path; a key that is already there keeps its spelling. -/
def insert (m : PathMap α) (p : Path) (v : α) : PathMap α := ⟨insertEntry p v m.entries⟩

/-- Removes a path. -/
def erase (m : PathMap α) (p : Path) : PathMap α := ⟨m.entries.filter fun e => !p.same e.1⟩

/-- Sets the value of a path and the spelling of its key. -/
def replace (m : PathMap α) (p : Path) (v : α) : PathMap α := (m.erase p).insert p v

/-- The value of a path. -/
def find? (m : PathMap α) (p : Path) : Option α :=
  (m.entries.find? fun e => p.same e.1).map Prod.snd

/-- Whether a path is a key. -/
def contains (m : PathMap α) (p : Path) : Bool := m.entries.any fun e => p.same e.1

/-- The number of keys. -/
def size (m : PathMap α) : Nat := m.entries.length

/-- The keys in path order. -/
def keys (m : PathMap α) : List Path := m.entries.map Prod.fst

/-- The values in the order of their keys. -/
def values (m : PathMap α) : List α := m.entries.map Prod.snd

/-- The map of a list of entries; of equal paths the last one counts. -/
def ofList (entries : List (Path × α)) : PathMap α :=
  entries.foldl (fun m e => m.replace e.1 e.2) empty

end PathMap
end IncrementalBuild
