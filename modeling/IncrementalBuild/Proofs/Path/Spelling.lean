import IncrementalBuild.Proofs.Path.Names
/-!
# Spellings of a path

A path is spelled in many ways. A separator may be written twice, a `.` may stand between separators
or after the last one, and a path may end in a separator. Two spellings are equal as paths exactly
when such changes, made or undone, lead from one to the other. Nothing else is left out of a path,
neither a leading `.` nor a `..` with the name before it, and a relative path is never an absolute
one.

## Main definitions

* `Path.Shortens` — a spelling that is made shorter by one change.
* `Path.Respelled` — two spellings of one path.
* `Path.spell` — the shortest spelling of components.

## Main results

* `Path.eqvGen_spell` — every spelling leads to the shortest one of its components.
* `Path.respelled_iff_same` — spellings of one path are those with the same components.
-/

namespace IncrementalBuild

/-- The text of a component. That of the root is what stands before the first separator. -/
def Component.text : Component → List Char
  | .root => []
  | .here => ['.']
  | .up => ['.', '.']
  | .name text => text

namespace Path

/-- A spelling that is made shorter by one change. -/
inductive Shortens : List Char → List Char → Prop
  /-- A separator that was written twice is written once. -/
  | separator (a b : List Char) : Shortens (a ++ '/' :: '/' :: b) (a ++ '/' :: b)
  /-- A `.` between separators is left out. -/
  | dot (a b : List Char) : Shortens (a ++ '/' :: '.' :: '/' :: b) (a ++ '/' :: b)
  /-- A `.` after the last separator is left out. -/
  | lastDot (a : List Char) : Shortens (a ++ ['/', '.']) (a ++ ['/'])
  /-- A separator at the end is left out, unless it is the root. -/
  | lastSeparator {a : List Char} (h : a ≠ []) : Shortens (a ++ ['/']) a

/-- Two spellings of one path. -/
def Respelled (p q : Path) : Prop := Relation.EqvGen Shortens p.text.toList q.text.toList

/-- The shortest spelling of components. -/
def spell : List Component → List Char
  | [.root] => ['/']
  | components => joinSegments (components.map Component.text)

variable {p q : Path} {a cs ds segment : List Char} {c : Component} {rest : List Component}

/-! ### Changes keep components -/

/-- Where a path starts does not depend on what follows a separator. -/
theorem startOf_slash (a b : List Char) : startOf (a ++ '/' :: b) = startOf (a ++ ['/']) := by
  cases a with
  | nil => rfl
  | cons c a => rw [startOf_append_slash b (by simp), startOf_append_slash [] (by simp)]

/-- A shorter spelling has the same components. -/
theorem Shortens.componentsOf_eq (h : Shortens cs ds) : componentsOf cs = componentsOf ds := by
  rw [Path.componentsOf_eq, Path.componentsOf_eq ds]
  cases h with
  | separator a b =>
      have hsteps : stepsOf ('/' :: b) = stepsOf b := stepsOf_append_slash [] b
      rw [startOf_slash, startOf_slash a b, stepsOf_append_slash, stepsOf_append_slash, hsteps]
  | dot a b =>
      have hsteps : stepsOf ('.' :: '/' :: b) = stepsOf b := stepsOf_append_slash ['.'] b
      rw [startOf_slash, startOf_slash a b, stepsOf_append_slash, stepsOf_append_slash, hsteps]
  | lastDot a =>
      rw [startOf_slash, stepsOf_append_slash, stepsOf_append_slash]
      rfl
  | lastSeparator ha =>
      rw [startOf_append_slash [] ha, stepsOf_append_slash]
      exact congrArg _ (List.append_nil _)

/-- Changes of spelling keep the components. -/
theorem componentsOf_eq_of_eqvGen (h : Relation.EqvGen Shortens cs ds) :
    componentsOf cs = componentsOf ds := by
  induction h with
  | rel _ _ h => exact h.componentsOf_eq
  | refl _ => rfl
  | symm _ _ _ ih => exact ih.symm
  | trans _ _ _ _ _ ih ih' => exact ih.trans ih'

/-! ### The shortest spelling -/

/-- The component of a segment has its text. -/
theorem text_of_ofSegment? (h : Component.ofSegment? segment = some c) : c.text = segment := by
  unfold Component.ofSegment? at h
  split at h
  · simp at h
  · simp at h
  · exact Option.some.inj h ▸ rfl
  · exact Option.some.inj h ▸ rfl

/-- A segment without a component is missing or a dot. -/
theorem eq_of_ofSegment?_eq_none (h : Component.ofSegment? segment = none) :
    segment = [] ∨ segment = ['.'] := by
  unfold Component.ofSegment? at h
  split at h
  · exact .inl rfl
  · exact .inr rfl
  · simp at h
  · simp at h

/-- Segments after the first one come after separators. -/
theorem joinSegments_cons (first : List Char) (parts : List (List Char)) :
    joinSegments (first :: parts) = first ++ parts.flatMap ('/' :: ·) := by
  induction parts generalizing first with
  | nil => simp [joinSegments]
  | cons second parts ih =>
      rw [joinSegments, List.intercalate_cons_cons, ← joinSegments, ih, List.flatMap_cons,
        List.append_assoc]
      rfl

/-- Components after the first one come after separators, and so does what follows the root. -/
theorem spell_cons (h : c = .root → rest ≠ []) :
    spell (c :: rest) = c.text ++ rest.flatMap fun d => '/' :: d.text := by
  have hspell : spell (c :: rest) = joinSegments ((c :: rest).map Component.text) := by
    unfold spell
    split
    · next heq =>
        obtain ⟨rfl, rfl⟩ := List.cons.inj heq
        exact absurd rfl (h rfl)
    · rfl
  rw [hspell, List.map_cons, joinSegments_cons, List.flatMap_map]

/-- A segment without a component is left out, unless the root ends with it. -/
theorem eqvGen_drop (h : Component.ofSegment? segment = none) {parts : List (List Char)}
    (ha : a ≠ [] ∨ parts ≠ []) :
    Relation.EqvGen Shortens (a ++ '/' :: segment ++ parts.flatMap ('/' :: ·))
      (a ++ parts.flatMap ('/' :: ·)) := by
  cases parts with
  | nil =>
      have ha : a ≠ [] := by simpa using ha
      have hlast := Relation.EqvGen.rel _ _ (Shortens.lastSeparator ha)
      rw [List.flatMap_nil, List.append_nil, List.append_nil]
      rcases eq_of_ofSegment?_eq_none h with rfl | rfl
      · exact hlast
      · exact .trans _ _ _ (.rel _ _ (.lastDot a)) hlast
  | cons next parts =>
      rw [List.flatMap_cons, List.append_assoc]
      rcases eq_of_ofSegment?_eq_none h with rfl | rfl
      · exact .rel _ _ (.separator a _)
      · exact .rel _ _ (.dot a _)

/-- After the start of a path, segments lead to the components that they stand for. -/
theorem eqvGen_steps (ha : a ≠ []) (parts : List (List Char)) :
    Relation.EqvGen Shortens (a ++ parts.flatMap ('/' :: ·))
      (a ++ (parts.filterMap Component.ofSegment?).flatMap fun c => '/' :: c.text) := by
  induction parts generalizing a with
  | nil => exact .refl _
  | cons segment parts ih =>
      rw [List.flatMap_cons, ← List.append_assoc, List.filterMap_cons]
      split
      · next hnone => exact .trans _ _ _ (eqvGen_drop hnone (.inl ha)) (ih ha)
      · next c hc =>
          rw [List.flatMap_cons, ← List.append_assoc, text_of_ofSegment? hc]
          exact ih (by simp)

/-- After the root, segments lead to the components that they stand for. -/
theorem eqvGen_root (segment : List Char) (parts : List (List Char)) :
    Relation.EqvGen Shortens ((segment :: parts).flatMap ('/' :: ·))
      (spell (.root :: (segment :: parts).filterMap Component.ofSegment?)) := by
  cases hc : Component.ofSegment? segment with
  | some c =>
      rw [List.filterMap_cons_some hc, spell_cons (fun _ => List.cons_ne_nil _ _),
        List.flatMap_cons, List.flatMap_cons, text_of_ofSegment? hc]
      exact eqvGen_steps (List.cons_ne_nil _ _) parts
  | none =>
      rw [List.filterMap_cons_none hc]
      cases parts with
      | nil =>
          rcases eq_of_ofSegment?_eq_none hc with rfl | rfl
          · exact .refl _
          · exact .rel _ _ (.lastDot [])
      | cons next parts =>
          have hdrop := eqvGen_drop (a := []) hc (.inr (List.cons_ne_nil next parts))
          exact .trans _ _ _ hdrop (eqvGen_root next parts)

/-- A relative path with a first segment leads to the shortest spelling of its components. -/
theorem eqvGen_relative {first : List Char} {parts : List (List Char)} (hfirst : first ≠ [])
    (hsegments : segments cs = first :: parts) (hroot : cs.head? ≠ some '/') :
    Relation.EqvGen Shortens cs (spell (componentsOf cs)) := by
  have hcs : first ++ parts.flatMap ('/' :: ·) = cs := by
    rw [← joinSegments_cons, ← hsegments, joinSegments_segments]
  have hsteps := eqvGen_steps hfirst parts
  rw [hcs] at hsteps
  rw [componentsOf_eq, startOf, if_neg hroot, stepsOf, hsegments, List.head?_cons]
  by_cases hdot : first = ['.']
  · subst hdot
    rw [if_pos rfl, List.filterMap_cons_none ofSegment?_dot, List.singleton_append,
      spell_cons (fun h => absurd h (by simp))]
    exact hsteps
  · rw [if_neg (by simpa using hdot), List.nil_append]
    cases hc : Component.ofSegment? first with
    | none => exact absurd (eq_of_ofSegment?_eq_none hc) (not_or.mpr ⟨hfirst, hdot⟩)
    | some c =>
        have hstep : c ∈ stepsOf cs := by
          rw [stepsOf, hsegments, List.filterMap_cons_some hc]
          exact List.mem_cons_self
        rw [List.filterMap_cons_some hc, spell_cons (fun h => absurd h (mem_stepsOf hstep).1),
          text_of_ofSegment? hc]
        exact hsteps

/-- **The shortest spelling.** Every spelling leads to the shortest one of its components. -/
theorem eqvGen_spell (cs : List Char) :
    Relation.EqvGen Shortens cs (spell (componentsOf cs)) := by
  cases cs with
  | nil => exact .refl _
  | cons c rest =>
      obtain ⟨segment, parts, hparts⟩ :=
        List.exists_cons_of_ne_nil (Blank.pieces_ne_nil (· == '/') rest)
      by_cases hc : c = '/'
      · have hrest : rest = segment ++ parts.flatMap ('/' :: ·) := by
          rw [← joinSegments_cons, ← hparts]
          exact (joinSegments_segments rest).symm
        have hroot := eqvGen_root segment parts
        rw [List.flatMap_cons, List.cons_append, ← hrest, ← hparts] at hroot
        rw [hc]
        exact hroot
      · have hsegments : segments (c :: rest) = (c :: segment) :: parts := by
          rw [segments, Blank.pieces, if_neg (by simpa using hc), hparts]
        exact eqvGen_relative (List.cons_ne_nil _ _) hsegments (by simpa using hc)

/-! ### Equality -/

/-- **Equality.** Spellings of one path are those with the same components. -/
theorem respelled_iff_same : p.Respelled q ↔ p.same q = true := by
  rw [same_iff]
  refine ⟨componentsOf_eq_of_eqvGen, fun h => ?_⟩
  have hp := eqvGen_spell p.text.toList
  have hq := eqvGen_spell q.text.toList
  rw [← components, h] at hp
  exact .trans _ _ _ hp (.symm _ _ hq)

/-- Paths that are no spellings of each other are told apart. -/
theorem not_respelled_iff : ¬ p.Respelled q ↔ p.same q = false := by
  rw [respelled_iff_same, Bool.not_eq_true]

end Path
end IncrementalBuild
