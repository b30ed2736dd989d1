import IncrementalBuild.Proofs.Path.Keys
import Mathlib.Data.List.Forall2
/-!
# Lists and maps that are akin

What two requests name in two orders, and in two spellings, leads to lists and maps that differ in
the spelling of paths at most. They are akin: lists in path order are so item by item, and maps
have related values at every path.

## Main definitions

* `PathMap.Akin` — two maps with the same paths, whose values are related.

## Main results

* `Path.forall₂_of_ascending` — two lists in path order with the same items match one by one.
* `PathMap.Akin.insert`, `PathMap.Akin.erase` — akin maps stay akin under akin operations.
* `PathMap.Akin.entries` — the entries of akin maps match one by one.
-/

namespace IncrementalBuild

namespace Path

variable {α β : Type} {key : α → Path} {key' : β → Path} {R : α → β → Prop} {a : List α}
  {b : List β}

/-- **Lists in path order** match item by item, if every item of one has its match in the other and
items that match have equal paths. -/
theorem forall₂_of_ascending (ha : a.Pairwise fun x y => (key x).before (key y) = true)
    (hb : b.Pairwise fun x y => (key' x).before (key' y) = true)
    (hR : ∀ x y, R x y → (key x).same (key' y) = true) (hab : ∀ x ∈ a, ∃ y ∈ b, R x y)
    (hba : ∀ y ∈ b, ∃ x ∈ a, R x y) : List.Forall₂ R a b := by
  induction a generalizing b with
  | nil =>
      cases b with
      | nil => exact .nil
      | cons y b =>
          obtain ⟨x, hx, -⟩ := hba y List.mem_cons_self
          exact absurd hx List.not_mem_nil
  | cons x a ih =>
      cases b with
      | nil =>
          obtain ⟨y, hy, -⟩ := hab x List.mem_cons_self
          exact absurd hy List.not_mem_nil
      | cons y b =>
          obtain ⟨hx, ha⟩ := List.pairwise_cons.mp ha
          obtain ⟨hy, hb⟩ := List.pairwise_cons.mp hb
          -- The match of the first item is the first one, for there is nothing before either.
          have hfirst : R x y := by
            obtain ⟨y', hy', hxy⟩ := hab x List.mem_cons_self
            rcases List.mem_cons.mp hy' with rfl | hy'
            · exact hxy
            obtain ⟨x', hx', hyx⟩ := hba y List.mem_cons_self
            rcases List.mem_cons.mp hx' with rfl | hx'
            · exact hyx
            have hbefore := before_iff.mp (hx x' hx')
            have hbefore' := before_iff.mp (hy y' hy')
            rw [same_iff_key.mp (hR x y' hxy), same_iff_key.mp (hR x' y hyx)] at hbefore
            exact absurd (hbefore.trans hbefore') (lt_irrefl _)
          have hsame := same_iff_key.mp (hR x y hfirst)
          refine .cons hfirst (ih ha hb (fun z hz => ?_) fun z hz => ?_)
          · obtain ⟨z', hz', hzz⟩ := hab z (List.mem_cons_of_mem x hz)
            rcases List.mem_cons.mp hz' with rfl | hz'
            · have hbefore := before_iff.mp (hx z hz)
              rw [hsame, same_iff_key.mp (hR z z' hzz)] at hbefore
              exact absurd hbefore (lt_irrefl _)
            · exact ⟨z', hz', hzz⟩
          · obtain ⟨z', hz', hzz⟩ := hba z (List.mem_cons_of_mem y hz)
            rcases List.mem_cons.mp hz' with rfl | hz'
            · have hbefore := before_iff.mp (hy z hz)
              rw [← hsame, same_iff_key.mp (hR z' z hzz)] at hbefore
              exact absurd hbefore (lt_irrefl _)
            · exact ⟨z', hz', hzz⟩

/-- In lists that match one by one, every item has its match. -/
theorem exists_of_forall₂ (h : List.Forall₂ R a b) {x : α} (hx : x ∈ a) : ∃ y ∈ b, R x y := by
  induction h with
  | nil => exact absurd hx List.not_mem_nil
  | cons hfirst _ ih =>
      rcases List.mem_cons.mp hx with rfl | hx
      · exact ⟨_, List.mem_cons_self, hfirst⟩
      · obtain ⟨y, hy, hxy⟩ := ih hx
        exact ⟨y, List.mem_cons_of_mem _ hy, hxy⟩

/-- The place of a path in path order does not depend on its spelling. -/
theorem before_congr {p q p' q' : Path} (hp : p.same p' = true) (hq : q.same q' = true) :
    p.before q = p'.before q' := by
  rw [Bool.eq_iff_iff, before_iff, before_iff, same_iff_key.mp hp, same_iff_key.mp hq]

/-- Nor does equality. -/
theorem same_congr {p q p' q' : Path} (hp : p.same p' = true) (hq : q.same q' = true) :
    p.same q = p'.same q' :=
  (same_congr_left hp).trans (same_congr_right hq)

end Path

namespace PathMap

variable {α β : Type} {R : α → β → Prop} {a : PathMap α} {b : PathMap β} {p q : Path}

/-- Two maps with the same paths, whose values are related. -/
def Akin (R : α → β → Prop) (a : PathMap α) (b : PathMap β) : Prop :=
  ∀ p, Option.Rel R (a.find? p) (b.find? p)

/-- Maps are akin by equality if they say the same of every path. -/
theorem akin_eq_iff {a b : PathMap α} : Akin Eq a b ↔ ∀ p, a.find? p = b.find? p := by
  refine forall_congr' fun p => ?_
  rcases a.find? p with _ | v <;> rcases b.find? p with _ | w
  · exact iff_of_true .none rfl
  · exact iff_of_false (fun h => by cases h) (by simp)
  · exact iff_of_false (fun h => by cases h) (by simp)
  · refine ⟨fun h => ?_, fun h => .some (Option.some.inj h)⟩
    cases h with
    | some hvw => rw [hvw]

/-- Akin maps have related values at equal paths. -/
theorem Akin.find? (h : Akin R a b) (hpq : p.same q = true) :
    Option.Rel R (a.find? p) (b.find? q) := by
  rw [← find?_congr hpq]
  exact h p

/-- Akin maps stay akin when related values are inserted at equal paths. -/
theorem Akin.insert {v : α} {w : β} (h : Akin R a b) (hpq : p.same q = true) (hvw : R v w) :
    Akin R (a.insert p v) (b.insert q w) := by
  intro x
  rw [find?_insert, find?_insert, Path.same_congr_right hpq]
  split
  · exact .some hvw
  · exact h x

/-- They stay akin when equal paths are erased. -/
theorem Akin.erase (h : Akin R a b) (hpq : p.same q = true) : Akin R (a.erase p) (b.erase q) := by
  intro x
  rw [find?_erase, find?_erase, Path.same_congr_right hpq]
  split
  · exact .none
  · exact h x

/-- In path order, an entry is what the map says of its key. -/
theorem Ordered.find?_of_mem {e : Path × α} (ha : a.Ordered) (he : e ∈ a.entries) :
    a.find? e.1 = some e.2 := by
  obtain ⟨entries⟩ := a
  induction entries with
  | nil => exact absurd he List.not_mem_nil
  | cons first rest ih =>
      obtain ⟨hfirst, hrest⟩ := List.pairwise_cons.mp ha
      rcases List.mem_cons.mp he with rfl | he
      · exact find?_cons_same (Path.same_refl _)
      · have hbefore := hfirst e.1 (List.mem_map_of_mem he)
        have hother : e.1.same first.1 = false := by
          rw [Path.same_comm]
          exact Path.same_eq_false_of_before hbefore
        exact (find?_cons_other hother).trans (ih hrest he)

/-- What a map says of a path is an entry. -/
theorem exists_entry {v : α} (h : a.find? p = some v) :
    ∃ e ∈ a.entries, p.same e.1 = true ∧ e.2 = v := by
  obtain ⟨e, he, hv⟩ := Option.map_eq_some_iff.mp h
  have hsame : p.same e.1 = true := by simpa using List.find?_some he
  exact ⟨e, List.mem_of_find?_eq_some he, hsame, hv⟩

/-- **The entries** of akin maps match one by one. -/
theorem Akin.entries (h : Akin R a b) (ha : a.Ordered) (hb : b.Ordered) :
    List.Forall₂ (fun e d => e.1.same d.1 = true ∧ R e.2 d.2) a.entries b.entries := by
  refine Path.forall₂_of_ascending (List.pairwise_map.mp ha) (List.pairwise_map.mp hb)
    (fun _ _ hR => hR.1) (fun e he => ?_) fun d hd => ?_
  · have hfind := h e.1
    rw [ha.find?_of_mem he] at hfind
    rcases hother : b.find? e.1 with _ | w
    · rw [hother] at hfind
      cases hfind
    · rw [hother] at hfind
      cases hfind with
      | some hR =>
          obtain ⟨d, hd, hsame, rfl⟩ := exists_entry hother
          exact ⟨d, hd, hsame, hR⟩
  · have hfind := h d.1
    rw [hb.find?_of_mem hd] at hfind
    rcases hother : a.find? d.1 with _ | v
    · rw [hother] at hfind
      cases hfind
    · rw [hother] at hfind
      cases hfind with
      | some hR =>
          obtain ⟨e, he, hsame, rfl⟩ := exists_entry hother
          exact ⟨e, he, Path.same_symm hsame, hR⟩

end PathMap
end IncrementalBuild
