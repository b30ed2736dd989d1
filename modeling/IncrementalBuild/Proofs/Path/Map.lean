import IncrementalBuild.Path.Map
import IncrementalBuild.Proofs.Path.Order
/-!
# What a map keyed by paths says

A map is known from what `PathMap.find?` says of every path: equal paths have one value, and
every operation changes the value of one path and of those equal to it.

## Main results

* `PathMap.find?_insert`, `PathMap.find?_erase`, `PathMap.find?_replace` — one equation for each
  operation.
* `PathMap.find?_ofList_isSome`, `PathMap.exists_of_find?_ofList` — which paths the map of a list
  has, and that their values come from the list.
-/

namespace IncrementalBuild.PathMap

variable {α : Type} {m : PathMap α} {p q : Path} {v : α}

/-! ### Single entries -/

/-- What a map says of a path, when its first entry is for an equal path. -/
theorem find?_cons_same {w : α} {rest : List (Path × α)} (h : p.same q = true) :
    (⟨(q, w) :: rest⟩ : PathMap α).find? p = some w := by
  simp [find?, h]

/-- What a map says of a path, when its first entry is for another path. -/
theorem find?_cons_other {w : α} {rest : List (Path × α)} (h : p.same q = false) :
    (⟨(q, w) :: rest⟩ : PathMap α).find? p = (⟨rest⟩ : PathMap α).find? p := by
  simp [find?, h]

/-- The empty map has no paths. -/
@[simp] theorem find?_empty (p : Path) : (empty : PathMap α).find? p = none := rfl

/-- Equal paths have one value. -/
theorem find?_congr (h : p.same q = true) : m.find? p = m.find? q := by
  simp only [find?, Path.same_congr_left h]

/-! ### Operations -/

/-- **Insertion** sets the value of a path and of those equal to it. -/
theorem find?_insert (m : PathMap α) (p q : Path) (v : α) :
    (m.insert p v).find? q = if q.same p then some v else m.find? q := by
  obtain ⟨entries⟩ := m
  rw [insert]
  induction entries with
  | nil =>
      by_cases h : q.same p = true
      · rw [if_pos h, insertEntry, find?_cons_same h]
      · rw [if_neg h, insertEntry, find?_cons_other (Bool.eq_false_iff.mpr h)]
  | cons e rest ih =>
      obtain ⟨r, w⟩ := e
      by_cases hpr : p.same r = true
      · -- The entry at the front is replaced.
        simp only [insertEntry, if_pos hpr]
        rw [Path.same_congr_right hpr]
        by_cases h : q.same r = true
        · rw [if_pos h, find?_cons_same h]
        · rw [if_neg h, find?_cons_other (Bool.eq_false_iff.mpr h),
            find?_cons_other (Bool.eq_false_iff.mpr h)]
      · by_cases hb : p.before r = true
        · simp only [insertEntry, if_neg hpr, if_pos hb]
          by_cases h : q.same p = true
          · rw [if_pos h, find?_cons_same h]
          · rw [if_neg h, find?_cons_other (Bool.eq_false_iff.mpr h)]
        · simp only [insertEntry, if_neg hpr, if_neg hb]
          by_cases h : q.same r = true
          · have hqp : ¬ q.same p = true := fun hqp =>
              hpr (Path.same_trans (Path.same_symm hqp) h)
            rw [if_neg hqp, find?_cons_same h, find?_cons_same h]
          · rw [find?_cons_other (Bool.eq_false_iff.mpr h), ih,
              find?_cons_other (Bool.eq_false_iff.mpr h)]

/-- **Erasure** takes the value of a path and of those equal to it. -/
theorem find?_erase (m : PathMap α) (p q : Path) :
    (m.erase p).find? q = if q.same p then none else m.find? q := by
  obtain ⟨entries⟩ := m
  rw [erase]
  induction entries with
  | nil => simp [find?]
  | cons e rest ih =>
      obtain ⟨r, w⟩ := e
      by_cases hpr : p.same r = true
      · rw [List.filter_cons_of_neg (by simp [hpr]), ih]
        by_cases h : q.same p = true
        · rw [if_pos h, if_pos h]
        · have hqr : q.same r = false := by
            rw [← Path.same_congr_right hpr]
            exact Bool.eq_false_iff.mpr h
          rw [if_neg h, if_neg h, find?_cons_other hqr]
      · rw [List.filter_cons_of_pos (by simp [hpr])]
        by_cases h : q.same r = true
        · have hqp : ¬ q.same p = true := fun hqp =>
            hpr (Path.same_trans (Path.same_symm hqp) h)
          rw [if_neg hqp, find?_cons_same h, find?_cons_same h]
        · rw [find?_cons_other (Bool.eq_false_iff.mpr h), ih,
            find?_cons_other (Bool.eq_false_iff.mpr h)]

/-- **Replacement** sets the value of a path and of those equal to it. -/
theorem find?_replace (m : PathMap α) (p q : Path) (v : α) :
    (m.replace p v).find? q = if q.same p then some v else m.find? q := by
  rw [replace, find?_insert, find?_erase]
  by_cases h : q.same p = true
  · rw [if_pos h, if_pos h]
  · rw [if_neg h, if_neg h, if_neg h]

/-! ### Maps of lists -/

/-- Entries taken in one after the other; what they do not name stays. -/
theorem find?_foldl_replace (entries : List (Path × α)) (m : PathMap α) (p : Path) :
    (entries.foldl (fun m e => m.replace e.1 e.2) m).find? p = m.find? p ∧
        (∀ e ∈ entries, p.same e.1 = false) ∨
      ∃ e ∈ entries, p.same e.1 = true ∧
        (entries.foldl (fun m e => m.replace e.1 e.2) m).find? p = some e.2 := by
  induction entries generalizing m with
  | nil => exact .inl ⟨rfl, fun e he => absurd he List.not_mem_nil⟩
  | cons e rest ih =>
      rcases ih (m.replace e.1 e.2) with ⟨hfind, hnone⟩ | ⟨d, hd, hsame, hfind⟩
      · rw [find?_replace] at hfind
        by_cases h : p.same e.1 = true
        · rw [if_pos h] at hfind
          exact .inr ⟨e, List.mem_cons_self, h, hfind⟩
        · rw [if_neg h] at hfind
          refine .inl ⟨hfind, ?_⟩
          intro d hd
          rcases List.mem_cons.mp hd with rfl | hd
          · exact Bool.eq_false_iff.mpr h
          · exact hnone d hd
      · exact .inr ⟨d, List.mem_cons_of_mem e hd, hsame, hfind⟩

/-- The value of a path in the map of a list is that of an entry for an equal path. -/
theorem exists_of_find?_ofList {entries : List (Path × α)}
    (h : (ofList entries).find? p = some v) : ∃ q, (q, v) ∈ entries ∧ p.same q = true := by
  rcases find?_foldl_replace entries empty p with ⟨hfind, -⟩ | ⟨e, he, hsame, hfind⟩
  · rw [ofList, hfind, find?_empty] at h
    exact absurd h (by simp)
  · rw [ofList, hfind] at h
    obtain rfl := Option.some.inj h
    exact ⟨e.1, he, hsame⟩

/-- The map of a list has the paths that its entries name. -/
theorem find?_ofList_isSome {entries : List (Path × α)} :
    ((ofList entries).find? p).isSome = true ↔ ∃ e ∈ entries, p.same e.1 = true := by
  constructor
  · intro h
    obtain ⟨v, hv⟩ := Option.isSome_iff_exists.mp h
    obtain ⟨q, hq, hsame⟩ := exists_of_find?_ofList hv
    exact ⟨(q, v), hq, hsame⟩
  · rintro ⟨e, he, hsame⟩
    rcases find?_foldl_replace entries empty p with ⟨-, hnone⟩ | ⟨d, -, -, hfind⟩
    · rw [hnone e he] at hsame
      exact absurd hsame Bool.false_ne_true
    · rw [ofList, hfind]
      rfl

end IncrementalBuild.PathMap
