import IncrementalBuild.Proofs.Path.Spelling
import IncrementalBuild.Proofs.Text.Order
/-!
# Comparing paths component by component

Paths are put in order by their components: the first two that differ decide, and a path comes
before the paths that extend it. The order is total up to the spelling of a path.

## Main definitions

* `Component.Below` — the order of components.
* `Path.Precedes` — the order of paths.

## Main results

* `Component.below_iff_code` — components are ordered as their numbers are.
* `Path.precedes_iff_before` — paths are ordered as their keys are.
* `Path.Precedes.not_respelled` — a path that comes before another is not a spelling of it.
-/

namespace IncrementalBuild

/-! ### Components -/

namespace Component

/-- The place of a component among those of other kinds: the root comes first, then a leading dot,
then `..`, then names. -/
def rank : Component → Nat
  | .root => 0
  | .here => 1
  | .up => 2
  | .name _ => 3

/-- The order of components. Names go by the bytes of their texts. -/
inductive Below : Component → Component → Prop
  /-- A component comes before those of later kinds. -/
  | kind {a b : Component} (h : a.rank < b.rank) : Below a b
  /-- A name comes before the names with larger bytes. -/
  | name {s t : List Char}
      (h : Bytes.ofString (String.ofList s) < Bytes.ofString (String.ofList t)) :
      Below (.name s) (.name t)

variable {a b : Component}

/-- The numbers of a component are its place among the kinds and its code points. -/
theorem code_eq (c : Component) : c.code = c.rank :: (c.name?.getD []).map Char.toNat := by
  cases c <;> rfl

/-- Components are ordered as their numbers are. -/
theorem below_iff_code : Below a b ↔ a.code < b.code := by
  rw [code_eq, code_eq, List.cons_lt_cons_iff]
  constructor
  · intro h
    cases h with
    | kind h => exact .inl h
    | name h =>
        rw [Bytes.ofString_lt_iff, String.toList_ofList, String.toList_ofList] at h
        exact .inr ⟨rfl, h⟩
  · rintro (h | ⟨hrank, h⟩)
    · exact .kind h
    · -- Two components of one kind that differ are names.
      cases b with
      | name t =>
          cases a with
          | name s =>
              refine .name ?_
              rw [Bytes.ofString_lt_iff, String.toList_ofList, String.toList_ofList]
              exact h
          | _ => exact absurd hrank (by simp [rank])
      | _ => exact absurd h (List.not_lt_nil _)

end Component

namespace Path

/-- A path comes before another when its components do, the first that differ deciding. -/
def Precedes (p q : Path) : Prop := List.Lex Component.Below p.components q.components

variable {p q : Path}

/-- Lists of components are ordered as the lists of their numbers are. -/
theorem lex_below_iff {a b : List Component} :
    List.Lex Component.Below a b ↔ a.map Component.code < b.map Component.code := by
  induction a generalizing b with
  | nil => cases b <;> simp
  | cons c a ih =>
      cases b with
      | nil => simp
      | cons d b =>
          rw [List.map_cons, List.map_cons, List.cons_lt_cons_iff, List.cons_lex_cons_iff, ih,
            Component.below_iff_code, Component.code_injective.eq_iff]

/-- **Order.** Paths are ordered as their keys are. -/
theorem precedes_iff_before : p.Precedes q ↔ p.before q = true := by
  rw [before_iff]
  exact lex_below_iff

/-- A path that comes before another is not a spelling of it. -/
theorem Precedes.not_respelled (h : p.Precedes q) : ¬ p.Respelled q :=
  not_respelled_iff.mpr (same_eq_false_of_before (precedes_iff_before.mp h))

end Path
end IncrementalBuild
