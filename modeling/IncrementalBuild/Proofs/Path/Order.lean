import IncrementalBuild.Path.Basic
import Mathlib.Data.List.Lex
import Mathlib.Order.Defs.LinearOrder
/-!
# Equality and order of paths

`Path.same` is an equivalence, since it compares components, and `Path.before` is a strict order
that is total up to it.

## Main results

* `Path.same_trans`, `Path.same_symm` — equality of paths is an equivalence.
* `Path.before_or_same_or_before` — of two paths one comes before the other, or they are equal.
-/

namespace IncrementalBuild

/-! ### Components as numbers -/

/-- A component is known from its numbers. -/
theorem Component.code_injective : Function.Injective Component.code := by
  intro a b h
  cases a <;> cases b <;> simp [Component.code] at h ⊢
  case name.name s t =>
      exact List.map_injective_iff.mpr (fun x y hxy => Char.toNat_inj.mp hxy) h

namespace Path

variable {p q r : Path}

/-! ### Equality -/

/-- Paths are equal when their components are. -/
theorem same_iff : p.same q = true ↔ p.components = q.components := by
  simp [same]

/-- A path equals itself. -/
@[simp] theorem same_refl (p : Path) : p.same p = true :=
  same_iff.mpr rfl

/-- Equality of paths goes both ways. -/
theorem same_symm (h : p.same q = true) : q.same p = true :=
  same_iff.mpr (same_iff.mp h).symm

/-- Equality of paths does not depend on the side. -/
theorem same_comm (p q : Path) : p.same q = q.same p := by
  rw [Bool.eq_iff_iff]
  exact ⟨same_symm, same_symm⟩

/-- Equality of paths carries over. -/
theorem same_trans (h : p.same q = true) (k : q.same r = true) : p.same r = true :=
  same_iff.mpr ((same_iff.mp h).trans (same_iff.mp k))

/-- Equal paths are equal to the same paths. -/
theorem same_congr_left (h : p.same q = true) : p.same r = q.same r := by
  simp only [same, same_iff.mp h]

/-- Equal paths are equal to the same paths, on the other side. -/
theorem same_congr_right (h : p.same q = true) : r.same p = r.same q := by
  simp only [same, same_iff.mp h]

/-- Equality of paths is equality of their keys. -/
theorem same_iff_key : p.same q = true ↔ p.key = q.key := by
  rw [same_iff, key, key]
  exact ⟨fun h => by rw [h], fun h => List.map_injective_iff.mpr Component.code_injective h⟩

/-! ### Order -/

/-- A path comes before another when its key is smaller. -/
theorem before_iff : p.before q = true ↔ p.key < q.key := by
  simp [before]

/-- No path comes before an equal one. -/
theorem before_eq_false_of_same (h : p.same q = true) : p.before q = false := by
  rw [Bool.eq_false_iff, ne_eq, before_iff, same_iff_key.mp h]
  exact lt_irrefl _

/-- A path that comes before another is not equal to it. -/
theorem same_eq_false_of_before (h : p.before q = true) : p.same q = false := by
  rw [Bool.eq_false_iff]
  intro hs
  rw [before_eq_false_of_same hs] at h
  exact Bool.false_ne_true h

/-- The order of paths carries over. -/
theorem before_trans (h : p.before q = true) (k : q.before r = true) : p.before r = true :=
  before_iff.mpr (lt_trans (before_iff.mp h) (before_iff.mp k))

/-- Equal paths come before the same paths. -/
theorem before_congr_left (h : p.same q = true) : p.before r = q.before r := by
  simp only [before, same_iff_key.mp h]

/-- **Totality.** Of two paths one comes before the other, or they are equal. -/
theorem before_or_same_or_before (p q : Path) :
    p.before q = true ∨ p.same q = true ∨ q.before p = true := by
  rw [before_iff, same_iff_key, before_iff]
  exact lt_trichotomy _ _

/-- Of two different paths that do not come before each other there are none. -/
theorem before_of_not_before (hs : p.same q = false) (hb : p.before q = false) :
    q.before p = true := by
  rcases before_or_same_or_before p q with h | h | h
  · rw [hb] at h
    exact absurd h Bool.false_ne_true
  · rw [hs] at h
    exact absurd h Bool.false_ne_true
  · exact h

/-- `notAfter` is the order that is not strict. -/
theorem notAfter_iff : p.notAfter q = true ↔ p.key ≤ q.key := by
  rw [notAfter, Bool.not_eq_true', Bool.eq_false_iff, ne_eq, before_iff, not_lt]

/-- The order that is not strict carries over. -/
theorem notAfter_trans (h : p.notAfter q = true) (k : q.notAfter r = true) :
    p.notAfter r = true :=
  notAfter_iff.mpr (le_trans (notAfter_iff.mp h) (notAfter_iff.mp k))

/-- Of two paths one does not come after the other. -/
theorem notAfter_total (p q : Path) : (p.notAfter q || q.notAfter p) = true := by
  rw [Bool.or_eq_true, notAfter_iff, notAfter_iff]
  exact le_total _ _

/-- A path that does not come after another comes before it or equals it. -/
theorem before_or_same_of_notAfter (h : p.notAfter q = true) :
    p.before q = true ∨ p.same q = true := by
  rw [before_iff, same_iff_key]
  exact lt_or_eq_of_le (notAfter_iff.mp h)

/-- Equal paths do not come after each other. -/
theorem notAfter_of_same (h : p.same q = true) : p.notAfter q = true :=
  notAfter_iff.mpr (le_of_eq (same_iff_key.mp h))

end Path
end IncrementalBuild
