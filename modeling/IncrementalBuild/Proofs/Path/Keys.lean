import IncrementalBuild.Proofs.Path.Map
import Mathlib.Data.List.Dedup
import Mathlib.Data.Multiset.Basic
/-!
# The keys of a map keyed by paths

No two keys of a map are equal, however it came about from insertions where there was no key and
from erasures. Its entries are then known up to their order, and so are its values.

## Main definitions

* `Path.Apart` — no two paths of a list are equal.
* `PathMap.Ordered` — the keys of a map are in path order.

## Main results

* `PathMap.perm_insert`, `PathMap.perm_erase` — the entries after one operation.
* `PathMap.perm_ofList` — the entries of the map of a list.
* `PathMap.Ordered.insert`, `PathMap.Ordered.erase`, `PathMap.ordered_ofList` — maps are ordered.
* `Path.perm_dedup` — paths that are apart, and are those of a list, are the list without
  repetitions.
-/

namespace IncrementalBuild

/-! ### Paths that are apart -/

namespace Path

variable {p : Path} {a b : List Path}

/-- No two paths of a list are equal. -/
def Apart (paths : List Path) : Prop := (paths.map components).Nodup

/-- A path is apart from others when it is equal to none of them. -/
theorem apart_cons : Apart (p :: a) ↔ (∀ q ∈ a, p.same q = false) ∧ Apart a := by
  rw [Apart, List.map_cons, List.nodup_cons, List.mem_map, Apart]
  refine and_congr_left fun _ => ?_
  constructor
  · intro h q hq
    rw [Bool.eq_false_iff]
    exact fun hsame => h ⟨q, hq, (same_iff.mp hsame).symm⟩
  · rintro h ⟨q, hq, heq⟩
    exact absurd ((h q hq).symm.trans (same_iff.mpr heq.symm)) Bool.false_ne_true

/-- The order does not matter for being apart. -/
theorem Apart.perm (h : Apart a) (hab : a.Perm b) : Apart b :=
  (hab.map components).nodup_iff.mp h

/-- Paths that are apart in each of two lists, and of which none is in both, are apart. -/
theorem Apart.append (ha : Apart a) (hb : Apart b) (hab : ∀ p ∈ a, ∀ q ∈ b, p.same q = false) :
    Apart (a ++ b) := by
  rw [Apart, List.map_append]
  refine List.Nodup.append ha hb fun c hca hcb => ?_
  obtain ⟨p, hp, rfl⟩ := List.mem_map.mp hca
  obtain ⟨q, hq, heq⟩ := List.mem_map.mp hcb
  exact absurd ((hab p hp q hq).symm.trans (same_iff.mpr heq.symm)) Bool.false_ne_true

/-- Paths are among those of a list when their components are. -/
theorem exists_same_iff : (∃ q ∈ a, p.same q = true) ↔ p.components ∈ a.map components := by
  simp only [List.mem_map, same_iff, eq_comm (a := p.components)]

/-- Paths that are apart, and are those that a list names, are that list without repetitions, up to
order and spelling. -/
theorem perm_dedup (ha : Apart a)
    (h : ∀ p : Path, (∃ q ∈ a, p.same q = true) ↔ ∃ q ∈ b, p.same q = true) :
    (a.map components).Perm (b.map components).dedup := by
  refine (List.perm_ext_iff_of_nodup ha (List.nodup_dedup _)).mpr fun c => ?_
  rw [List.mem_dedup]
  constructor
  · intro hc
    obtain ⟨p, -, rfl⟩ := List.mem_map.mp hc
    exact exists_same_iff.mp ((h p).mp (exists_same_iff.mpr hc))
  · intro hc
    obtain ⟨p, -, rfl⟩ := List.mem_map.mp hc
    exact exists_same_iff.mp ((h p).mpr (exists_same_iff.mpr hc))

end Path

/-! ### Keys of maps -/

namespace PathMap

variable {α : Type} {m : PathMap α} {p q : Path} {v : α} {entries : List (Path × α)}

/-- A path is no key when it is equal to none. -/
theorem find?_eq_none_iff : m.find? p = none ↔ ∀ q ∈ m.keys, p.same q = false := by
  simp [find?, keys]

/-- A path is a key when it is equal to one. -/
theorem find?_isSome_iff : (m.find? p).isSome = true ↔ ∃ q ∈ m.keys, p.same q = true := by
  rw [← not_iff_not, Bool.not_eq_true, Option.isSome_eq_false_iff, Option.isNone_iff_eq_none,
    find?_eq_none_iff]
  simp

/-- Insertion where there is no key adds an entry. -/
theorem perm_insertEntry (h : ∀ e ∈ entries, p.same e.1 = false) (v : α) :
    (insertEntry p v entries).Perm ((p, v) :: entries) := by
  induction entries with
  | nil => exact List.Perm.refl _
  | cons e rest ih =>
      obtain ⟨q, w⟩ := e
      have hpq : ¬ p.same q = true := by
        rw [h (q, w) List.mem_cons_self]
        exact Bool.false_ne_true
      rw [insertEntry, if_neg hpq]
      split
      · exact List.Perm.refl _
      · have hrest := ih fun e he => h e (List.mem_cons_of_mem _ he)
        exact (hrest.cons _).trans (List.Perm.swap _ _ _)

/-- **Insertion** where there is no key adds an entry. -/
theorem perm_insert (h : m.find? p = none) (v : α) :
    (m.insert p v).entries.Perm ((p, v) :: m.entries) := by
  refine perm_insertEntry (fun e he => ?_) v
  exact find?_eq_none_iff.mp h e.1 (List.mem_map_of_mem he)

/-- Insertion where there is no key keeps the keys apart. -/
theorem apart_insert (hm : Path.Apart m.keys) (h : m.find? p = none) (v : α) :
    Path.Apart (m.insert p v).keys := by
  have hcons : Path.Apart (p :: m.keys) := Path.apart_cons.mpr ⟨find?_eq_none_iff.mp h, hm⟩
  exact hcons.perm ((perm_insert h v).map Prod.fst).symm

/-- Erasure keeps the keys apart. -/
theorem apart_erase (hm : Path.Apart m.keys) (p : Path) : Path.Apart (m.erase p).keys :=
  hm.sublist ((List.filter_sublist.map Prod.fst).map Path.components)

/-- **Erasure** of a key takes its entry out. -/
theorem perm_erase (hm : Path.Apart m.keys) (h : m.find? p = some v) :
    ∃ q, m.entries.Perm ((q, v) :: (m.erase p).entries) := by
  obtain ⟨entries⟩ := m
  induction entries with
  | nil => exact absurd h (by simp [find?])
  | cons e rest ih =>
      obtain ⟨q, w⟩ := e
      obtain ⟨hq, hrest⟩ := Path.apart_cons.mp hm
      by_cases hpq : p.same q = true
      · -- No other key is equal to the one at the front, so that nothing else is erased.
        rw [find?_cons_same hpq] at h
        obtain rfl := Option.some.inj h
        refine ⟨q, ?_⟩
        rw [erase, List.filter_cons_of_neg (by simp [hpq]), List.filter_eq_self.mpr]
        intro e he
        rw [Path.same_congr_left hpq, hq e.1 (List.mem_map_of_mem he)]
        rfl
      · rw [find?_cons_other (Bool.eq_false_iff.mpr hpq)] at h
        obtain ⟨r, hperm⟩ := ih hrest h
        refine ⟨r, ?_⟩
        rw [erase, List.filter_cons_of_pos (by simp [hpq])]
        exact (hperm.cons _).trans (List.Perm.swap _ _ _)

/-- The value of a key that is erased is no longer among the values. -/
theorem values_erase (hm : Path.Apart m.keys) (h : m.find? p = some v) :
    (m.values : Multiset α) = v ::ₘ ((m.erase p).values : Multiset α) := by
  obtain ⟨q, hperm⟩ := perm_erase hm h
  exact Multiset.coe_eq_coe.mpr (hperm.map Prod.snd)

/-- The value that is inserted where there is no key joins the values. -/
theorem values_insert (h : m.find? p = none) (v : α) :
    ((m.insert p v).values : Multiset α) = v ::ₘ (m.values : Multiset α) :=
  Multiset.coe_eq_coe.mpr ((perm_insert h v).map Prod.snd)

/-! ### Maps of lists -/

/-- Entries that are apart are taken in one beside the other. -/
theorem perm_foldl_replace (h : Path.Apart ((m.entries ++ entries).map Prod.fst)) :
    (entries.foldl (fun m e => m.replace e.1 e.2) m).entries.Perm (m.entries ++ entries) := by
  induction entries generalizing m with
  | nil => rw [List.append_nil, List.foldl_nil]
  | cons e rest ih =>
      obtain ⟨p, v⟩ := e
      have hfront : (m.entries ++ (p, v) :: rest).Perm (((p, v) :: m.entries) ++ rest) :=
        List.perm_middle
      have happart := h.perm (hfront.map Prod.fst)
      have hnone : ∀ e ∈ m.entries, p.same e.1 = false := fun e he =>
        (Path.apart_cons.mp happart).1 e.1 (List.mem_map_of_mem (List.mem_append_left _ he))
      have herase : m.erase p = m := by
        rw [erase, List.filter_eq_self.mpr fun e he => by rw [hnone e he]; rfl]
      have hreplace : (m.replace p v).entries.Perm ((p, v) :: m.entries) := by
        rw [replace, herase]
        exact perm_insertEntry hnone v
      have happend := hreplace.append_right rest
      rw [List.foldl_cons]
      exact ((ih (happart.perm (happend.map Prod.fst).symm)).trans happend).trans hfront.symm

/-- **Maps of lists.** The map of a list whose paths are apart has its entries. -/
theorem perm_ofList (h : Path.Apart (entries.map Prod.fst)) :
    (ofList entries).entries.Perm entries :=
  perm_foldl_replace (m := empty) h

/-! ### Path order -/

/-- The keys of a map are in path order, each before all that follow. -/
def Ordered (m : PathMap α) : Prop := m.keys.Pairwise fun p q => p.before q = true

/-- A key after an insertion was one before, or is the inserted path. -/
theorem eq_or_mem_of_mem_insertEntry (h : q ∈ (insertEntry p v entries).map Prod.fst) :
    q = p ∨ q ∈ entries.map Prod.fst := by
  induction entries with
  | nil => exact .inl (List.mem_singleton.mp h)
  | cons e rest ih =>
      obtain ⟨k, w⟩ := e
      rw [insertEntry] at h
      split at h
      · exact .inr h
      · split at h
        · exact List.mem_cons.mp h
        · rcases List.mem_cons.mp h with rfl | h
          · exact .inr List.mem_cons_self
          · exact (ih h).imp_right (List.mem_cons_of_mem k)

/-- Insertion keeps path order. -/
theorem pairwise_insertEntry
    (h : (entries.map Prod.fst).Pairwise fun p q => p.before q = true) (p : Path) (v : α) :
    ((insertEntry p v entries).map Prod.fst).Pairwise fun p q => p.before q = true := by
  induction entries with
  | nil => exact List.pairwise_singleton _ p
  | cons e rest ih =>
      obtain ⟨k, w⟩ := e
      obtain ⟨hk, hrest⟩ := List.pairwise_cons.mp h
      rw [insertEntry]
      split
      · exact h
      · next hsame =>
          split
          · next hbefore =>
              refine List.pairwise_cons.mpr ⟨fun q hq => ?_, h⟩
              rcases List.mem_cons.mp hq with rfl | hq
              · exact hbefore
              · exact Path.before_trans hbefore (hk q hq)
          · next hbefore =>
              refine List.pairwise_cons.mpr ⟨fun q hq => ?_, ih hrest⟩
              rcases eq_or_mem_of_mem_insertEntry hq with rfl | hq
              · exact Path.before_of_not_before (Bool.eq_false_iff.mpr hsame)
                  (Bool.eq_false_iff.mpr hbefore)
              · exact hk q hq

/-- A map stays ordered when a path is inserted. -/
theorem Ordered.insert (h : m.Ordered) (p : Path) (v : α) : (m.insert p v).Ordered :=
  pairwise_insertEntry h p v

/-- A map stays ordered when a path is erased. -/
theorem Ordered.erase (h : m.Ordered) (p : Path) : (m.erase p).Ordered :=
  h.sublist (List.filter_sublist.map Prod.fst)

/-- The map of a list is ordered. -/
theorem ordered_ofList (entries : List (Path × α)) : (ofList entries).Ordered := by
  have hfold : ∀ m : PathMap α, m.Ordered →
      (entries.foldl (fun m e => m.replace e.1 e.2) m).Ordered := by
    induction entries with
    | nil => exact fun m h => h
    | cons e rest ih => exact fun m h => ih _ ((h.erase e.1).insert e.1 e.2)
  exact hfold empty List.Pairwise.nil

end PathMap
end IncrementalBuild
