/-!
# Maps keyed by texts

A map from texts to values that lists its keys in the order of their code points, which is also
the order of their bytes.
-/

namespace IncrementalBuild

/-- A map from texts to values; its entries are in the order of their keys. -/
structure TextMap (α : Type) where
  /-- The keys with their values. -/
  entries : List (String × α) := []
  deriving Repr

namespace TextMap

variable {α : Type}

/-- The map without keys. -/
def empty : TextMap α := {}

/-- Sets the value of `k` in a list of entries, at its place in the order of keys. -/
def insertEntry (k : String) (v : α) : List (String × α) → List (String × α)
  | [] => [(k, v)]
  | (l, w) :: rest =>
    if k = l then (k, v) :: rest
    else if k < l then (k, v) :: (l, w) :: rest
    else (l, w) :: insertEntry k v rest

/-- Sets the value of a key. -/
def insert (m : TextMap α) (k : String) (v : α) : TextMap α := ⟨insertEntry k v m.entries⟩

/-- Removes a key. -/
def erase (m : TextMap α) (k : String) : TextMap α := ⟨m.entries.filter fun e => e.1 != k⟩

/-- The value of a key. -/
def find? (m : TextMap α) (k : String) : Option α := m.entries.lookup k

/-- The number of keys. -/
def size (m : TextMap α) : Nat := m.entries.length

/-- The keys in their order. -/
def keys (m : TextMap α) : List String := m.entries.map Prod.fst

/-- The map of a list of entries; of equal keys the last one counts. -/
def ofList (entries : List (String × α)) : TextMap α :=
  entries.foldl (fun m e => m.insert e.1 e.2) empty

end TextMap
end IncrementalBuild
