import IncrementalBuild.Proofs.Path.Order
import IncrementalBuild.Proofs.Text.Blank
/-!
# Reading a path relative to a directory

The components of a path are where it starts, followed by its steps: every `..` and every name.
Reading a relative path in a directory puts its steps after the components of the directory, so
that equal paths are read as equal paths.

## Main results

* `Path.componentsOf_eq` — the components of a path text, as start and steps.
* `Path.componentsOf_joinText` — the components of a relative path read in a directory.
* `Path.join_same` — equal paths stay equal when both are read in one directory.
-/

namespace IncrementalBuild

namespace Path

/-! ### Start and steps -/

/-- The component that tells where a path starts, if it starts with one. -/
def startOf (cs : List Char) : List Component :=
  if cs.head? = some '/' then [.root]
  else if (segments cs).head? = some ['.'] then [.here] else []

/-- The components after the start: every `..` and every name. -/
def stepsOf (cs : List Char) : List Component := (segments cs).filterMap Component.ofSegment?

/-- An empty segment is no step. -/
@[simp] theorem ofSegment?_nil : Component.ofSegment? [] = none := rfl

/-- A dot is no step. -/
@[simp] theorem ofSegment?_dot : Component.ofSegment? ['.'] = none := rfl

/-- A path text consists of its start and its steps. -/
theorem componentsOf_eq (cs : List Char) : componentsOf cs = startOf cs ++ stepsOf cs := by
  rw [componentsOf.eq_def]
  split
  · next rest => simp [startOf, stepsOf, segments, Blank.pieces, List.filterMap_cons]
  · next hroot =>
      have hhead : cs.head? ≠ some '/' := by
        intro h
        obtain ⟨rest, hcs⟩ := List.head?_eq_some_iff.mp h
        exact hroot rest hcs
      rw [startOf, stepsOf, if_neg hhead]
      split
      · next rest hs => simp [hs, List.filterMap_cons]
      · next parts hparts =>
          have hdot : (segments cs).head? ≠ some ['.'] := by
            intro h
            obtain ⟨rest, hs⟩ := List.head?_eq_some_iff.mp h
            exact hparts rest hs
          rw [if_neg hdot, List.nil_append]

/-- No step is a root or a leading dot. -/
theorem mem_stepsOf {cs : List Char} {c : Component} (h : c ∈ stepsOf cs) :
    c ≠ .root ∧ c ≠ .here := by
  obtain ⟨segment, -, hc⟩ := List.mem_filterMap.mp h
  unfold Component.ofSegment? at hc
  split at hc
  · simp at hc
  · simp at hc
  · obtain rfl := Option.some.inj hc
    simp
  · obtain rfl := Option.some.inj hc
    simp

/-- The steps of a path are what its components are besides the start. -/
theorem stepsOf_eq_filter (cs : List Char) :
    stepsOf cs = (componentsOf cs).filter fun c => c ≠ .root ∧ c ≠ .here := by
  have hstart : (startOf cs).filter (fun c => decide (c ≠ .root ∧ c ≠ .here)) = [] := by
    unfold startOf
    split
    · simp
    · split <;> simp
  rw [componentsOf_eq, List.filter_append, hstart, List.nil_append, List.filter_eq_self.mpr]
  intro c hc
  exact decide_eq_true (mem_stepsOf hc)

/-- A path text is absolute when the root is its first component. -/
theorem head?_componentsOf_iff (cs : List Char) :
    (componentsOf cs).head? = some .root ↔ cs.head? = some '/' := by
  rw [componentsOf_eq, startOf]
  split
  · next h => simp [h]
  · next h =>
      simp only [h, iff_false]
      split
      · simp
      · intro hroot
        exact (mem_stepsOf (List.mem_of_mem_head? hroot)).1 rfl

/-! ### Joining -/

/-- A directory text does not show where it is cut from what is read in it. -/
theorem startOf_append_slash {a : List Char} (b : List Char) (ha : a ≠ []) :
    startOf (a ++ '/' :: b) = startOf a := by
  obtain ⟨c, a, rfl⟩ := List.exists_cons_of_ne_nil ha
  have hs : (segments (c :: a ++ '/' :: b)).head? = (segments (c :: a)).head? := by
    obtain ⟨first, rest, hp⟩ := List.exists_cons_of_ne_nil (Blank.pieces_ne_nil (· == '/') (c :: a))
    rw [segments, segments, Blank.pieces_append_cons (by rfl), hp]
    rfl
  rw [startOf, startOf, hs]
  rfl

/-- The steps of two texts with a separator between them. -/
theorem stepsOf_append_slash (a b : List Char) :
    stepsOf (a ++ '/' :: b) = stepsOf a ++ stepsOf b := by
  rw [stepsOf, segments, Blank.pieces_append_cons (by rfl), List.filterMap_append]
  rfl

/-- **Joining.** A relative path read in a directory has the components of the directory,
followed by its own steps. -/
theorem componentsOf_joinText {a b : List Char} (ha : a ≠ []) (hb : b.head? ≠ some '/') :
    componentsOf (joinText a b) = componentsOf a ++ stepsOf b := by
  rw [joinText, if_neg hb]
  by_cases hlast : a.getLast? = some '/'
  · rw [if_pos (.inr hlast)]
    obtain ⟨d, rfl⟩ := List.getLast?_eq_some_iff.mp hlast
    rw [List.append_assoc, List.singleton_append]
    rcases List.eq_nil_or_concat d with rfl | ⟨d', c, rfl⟩
    · simp [componentsOf_eq, startOf, stepsOf, segments, Blank.pieces, List.filterMap_cons]
    · rw [componentsOf_eq, componentsOf_eq (_ ++ ['/']),
        startOf_append_slash b (by simp), startOf_append_slash [] (by simp),
        stepsOf_append_slash, stepsOf_append_slash]
      simp [stepsOf, segments, Blank.pieces]
  · rw [if_neg (by simp [ha, hlast]), componentsOf_eq, componentsOf_eq a,
      startOf_append_slash b ha, stepsOf_append_slash, List.append_assoc]

/-- **Equal paths stay equal** when both are read in one directory. -/
theorem join_same {p q : Path} (dir : Path) (h : p.same q = true) :
    (dir.join p).same (dir.join q) = true := by
  rw [same_iff] at h ⊢
  simp only [components, join, String.toList_ofList] at h ⊢
  have habs : p.text.toList.head? = some '/' ↔ q.text.toList.head? = some '/' := by
    rw [← head?_componentsOf_iff, ← head?_componentsOf_iff, h]
  by_cases hp : p.text.toList.head? = some '/'
  · rw [joinText, joinText, if_pos hp, if_pos (habs.mp hp), h]
  · have hq : q.text.toList.head? ≠ some '/' := fun hq => hp (habs.mpr hq)
    by_cases hdir : dir.text.toList = []
    · rw [joinText, joinText, if_neg hp, if_neg hq, if_pos (.inl hdir), if_pos (.inl hdir),
        hdir, List.nil_append, List.nil_append, h]
    · rw [componentsOf_joinText hdir hp, componentsOf_joinText hdir hq, stepsOf_eq_filter,
        stepsOf_eq_filter q.text.toList, h]

end Path
end IncrementalBuild
