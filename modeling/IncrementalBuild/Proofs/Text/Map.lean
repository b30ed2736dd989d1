import IncrementalBuild.Text.Map
import Mathlib.Data.List.Basic
/-!
# What a map keyed by texts says

## Main results

* `TextMap.find?_insert` — insertion changes what the map says of one key.
* `TextMap.mem_keys_iff` — the keys are the texts that have a value.
* `TextMap.Sorted.insert` — insertion keeps the keys in strict order, so that each is there once.
-/

namespace IncrementalBuild.TextMap

variable {α : Type} {m : TextMap α} {k l : String} {v : α}

/-- The empty map has no values. -/
@[simp] theorem find?_empty (k : String) : (empty : TextMap α).find? k = none := rfl

/-- What a map says of a key, by its first entry. -/
theorem find?_cons (d k : String) (w : α) (rest : List (String × α)) :
    (⟨(d, w) :: rest⟩ : TextMap α).find? k =
      if k = d then some w else (⟨rest⟩ : TextMap α).find? k := by
  simp only [find?, List.lookup_cons]
  by_cases h : k = d
  · simp [h]
  · rw [beq_false_of_ne h, if_neg h]

/-- **Insertion** sets the value of a key and leaves the others. -/
theorem find?_insert (m : TextMap α) (k l : String) (v : α) :
    (m.insert k v).find? l = if l = k then some v else m.find? l := by
  obtain ⟨entries⟩ := m
  rw [insert]
  induction entries with
  | nil => rw [insertEntry, find?_cons]
  | cons e rest ih =>
      obtain ⟨d, w⟩ := e
      rw [find?_cons]
      by_cases hkd : k = d
      · -- The entry at the front is replaced.
        subst hkd
        simp only [insertEntry, if_true, find?_cons]
        by_cases h : l = k <;> simp [h]
      · by_cases hlt : k < d
        · simp only [insertEntry, if_neg hkd, if_pos hlt, find?_cons]
        · simp only [insertEntry, if_neg hkd, if_neg hlt, find?_cons]
          by_cases h : l = d
          · have hlk : ¬ l = k := fun hlk => hkd (hlk.symm.trans h)
            rw [if_pos h, if_neg hlk, if_pos h]
          · rw [if_neg h, if_neg h]
            exact ih

/-- The keys are the texts that have a value. -/
theorem mem_keys_iff : k ∈ m.keys ↔ (m.find? k).isSome = true := by
  obtain ⟨entries⟩ := m
  induction entries with
  | nil => simp [keys, find?]
  | cons e rest ih =>
      obtain ⟨d, w⟩ := e
      rw [keys] at ih ⊢
      rw [find?_cons, List.map_cons, List.mem_cons, ih]
      by_cases h : k = d <;> simp [h]

/-! ### The order of keys -/

/-- The keys are in strict order. -/
def Sorted (m : TextMap α) : Prop := m.keys.Pairwise (· < ·)

/-- The empty map is in order. -/
theorem Sorted.empty : (TextMap.empty : TextMap α).Sorted := List.Pairwise.nil

/-- The keys of a map in order differ from each other. -/
theorem Sorted.nodup (h : m.Sorted) : m.keys.Nodup :=
  List.Pairwise.imp (fun {a b} hab => by rintro rfl; exact String.lt_irrefl a hab) h

/-- An inserted key is the only new one. -/
theorem mem_keys_insert : l ∈ (m.insert k v).keys ↔ l = k ∨ l ∈ m.keys := by
  rw [mem_keys_iff, mem_keys_iff, find?_insert]
  by_cases h : l = k
  · simp [h]
  · simp [h]

/-- **Insertion** keeps the keys in order. -/
theorem Sorted.insert (h : m.Sorted) (k : String) (v : α) : (m.insert k v).Sorted := by
  obtain ⟨entries⟩ := m
  simp only [Sorted, TextMap.insert, keys] at h ⊢
  induction entries with
  | nil => exact List.pairwise_singleton _ k
  | cons e rest ih =>
      obtain ⟨d, w⟩ := e
      obtain ⟨hd, hrest⟩ := List.pairwise_cons.mp h
      by_cases hkd : k = d
      · subst hkd
        simpa [insertEntry] using h
      · by_cases hlt : k < d
        · simp only [insertEntry, if_neg hkd, if_pos hlt]
          refine List.pairwise_cons.mpr ⟨fun c hc => ?_, h⟩
          rcases List.mem_cons.mp hc with rfl | hc
          · exact hlt
          · exact String.lt_trans hlt (hd c hc)
        · have hdk : d < k := Std.lt_of_le_of_ne (String.not_lt.mp hlt) (Ne.symm hkd)
          simp only [insertEntry, if_neg hkd, if_neg hlt]
          refine List.pairwise_cons.mpr ⟨fun c hc => ?_, ih hrest⟩
          have hmem : c ∈ ((⟨rest⟩ : TextMap α).insert k v).keys := hc
          rcases mem_keys_insert.mp hmem with rfl | hc
          · exact hdk
          · exact hd c hc

end IncrementalBuild.TextMap
