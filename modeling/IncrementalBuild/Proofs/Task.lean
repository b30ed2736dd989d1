import IncrementalBuild.Task
import Mathlib.Order.Defs.Unbundled
/-!
# Reading tasks

A task that ended with a value took every one of its parts to a value, and a part that leaves
something of the world alone leaves it alone inside a larger task.

## Main definitions

* `Task.Keeps` — a task leaves what a function reads off the world as it was, also when it fails.
* `Task.Along` — a task leads from a world to one that stands in a relation to it.

## Main results

* `Task.bind_eq_ok`, `Task.bind_eq_error` — a task in two parts, taken apart.
* `Task.forAll_eq_ok` — a task for every item with values, item by item.
* `Task.Keeps.bind` — what the parts keep the whole keeps.
* `Task.Along.bind`, `Task.Along.forAll` — the whole leads where the parts lead in turn.
-/

namespace IncrementalBuild.Task

variable {σ α β γ : Type}

/-! ### Values -/

/-- What ended with a value is that value. -/
theorem toOption_eq_some {ε : Type} {r : Except ε α} {a : α} :
    r.toOption = some a ↔ r = .ok a := by
  cases r <;> simp [Except.toOption]

/-- A task in two parts that ended with a value. -/
theorem bind_eq_ok {t : Task σ α} {f : α → Task σ β} {w w' : World σ} {b : β}
    (h : (t >>= f) w = (.ok b, w')) :
    ∃ a w₁, t w = (.ok a, w₁) ∧ f a w₁ = (.ok b, w') := by
  rw [bind_apply] at h
  split at h
  · next a w₁ ha => exact ⟨a, w₁, ha, h⟩
  · next e w₁ he =>
      have := congrArg Prod.fst h
      exact absurd this (by simp)

/-- A task in two parts that failed did so in the first part, or in the second. -/
theorem bind_eq_error {t : Task σ α} {f : α → Task σ β} {w w' : World σ} {e : Failure}
    (h : (t >>= f) w = (.error e, w')) :
    t w = (.error e, w') ∨ ∃ a w₁, t w = (.ok a, w₁) ∧ f a w₁ = (.error e, w') := by
  rw [bind_apply] at h
  split at h
  · next a w₁ ha => exact .inr ⟨a, w₁, ha, h⟩
  · next e' w₁ he =>
      obtain ⟨heq, rfl⟩ := Prod.mk.inj h
      exact .inl (he.trans (by rw [Except.error.inj heq]))

/-- A task that does nothing ended with its value. -/
theorem pure_eq_ok {a b : α} {w w' : World σ} (h : (pure a : Task σ α) w = (.ok b, w')) :
    a = b ∧ w = w' := by
  rw [pure_apply, Prod.mk.injEq] at h
  exact ⟨Except.ok.inj h.1, h.2⟩

/-- Work on the host that ended with a value. -/
theorem onHost_eq_ok {f : Host → Except BuildError α × Host} {w w' : World σ} {a : α}
    (h : onHost f w = (.ok a, w')) : f w.host = (.ok a, w'.host) ∧ w'.engine = w.engine := by
  rw [onHost] at h
  split at h
  · next hdone =>
      obtain ⟨ha, rfl⟩ := Prod.mk.inj h
      exact ⟨hdone.trans (by rw [Except.ok.inj ha]), rfl⟩
  · exact absurd h (by simp)

/-- A task for every item of a list that ended with values: each item has its value and each value
its item, taken in a world that still has whatever the task leaves alone. -/
theorem forAll_eq_ok {f : α → Task σ β} {I : World σ → Prop} (hI : ∀ a v, I v → I (f a v).2)
    {items : List α} {w w' : World σ} {values : List β} (hw : I w)
    (h : forAll f items w = (.ok values, w')) :
    (∀ a ∈ items, ∃ b ∈ values, ∃ v, I v ∧ (f a v).1 = .ok b) ∧
      (∀ b ∈ values, ∃ a ∈ items, ∃ v, I v ∧ (f a v).1 = .ok b) ∧ I w' := by
  induction items generalizing w values with
  | nil =>
      obtain ⟨rfl, rfl⟩ := pure_eq_ok h
      exact ⟨by simp, by simp, hw⟩
  | cons a rest ih =>
      obtain ⟨b, w₁, hb, h⟩ := bind_eq_ok h
      obtain ⟨bs, w₂, hbs, h⟩ := bind_eq_ok h
      obtain ⟨rfl, rfl⟩ := pure_eq_ok h
      have hw₁ : I w₁ := by
        have := hI a w hw
        rw [hb] at this
        exact this
      have hone : (f a w).1 = .ok b := by rw [hb]
      obtain ⟨hitems, hvalues, hw₂⟩ := ih hw₁ hbs
      refine ⟨fun d hd => ?_, fun d hd => ?_, hw₂⟩
      · rcases List.mem_cons.mp hd with rfl | hd
        · exact ⟨b, List.mem_cons_self, w, hw, hone⟩
        · obtain ⟨c, hc, hfc⟩ := hitems d hd
          exact ⟨c, List.mem_cons_of_mem b hc, hfc⟩
      · rcases List.mem_cons.mp hd with rfl | hd
        · exact ⟨a, List.mem_cons_self, w, hw, hone⟩
        · obtain ⟨c, hc, hfc⟩ := hvalues d hd
          exact ⟨c, List.mem_cons_of_mem a hc, hfc⟩

/-! ### What tasks leave alone -/

/-- A task leaves what `f` reads off the world as it was. -/
def Keeps (f : World σ → γ) (t : Task σ α) : Prop := ∀ w, f (t w).2 = f w

namespace Keeps

variable {f : World σ → γ}

/-- Doing nothing keeps everything. -/
theorem pure (a : α) : Keeps f (Pure.pure a : Task σ α) := fun _ => rfl

/-- A task in two parts keeps what both parts keep. -/
theorem bind {t : Task σ α} {g : α → Task σ β} (ht : Keeps f t) (hg : ∀ a, Keeps f (g a)) :
    Keeps f (t >>= g) := by
  intro w
  rw [bind_apply]
  have hw := ht w
  split
  · next a w₁ ha =>
      rw [ha] at hw
      rw [hg a w₁, hw]
  · next e w₁ he =>
      rw [he] at hw
      exact hw

/-- Work on the host keeps what the engine's own state decides. -/
theorem onHost {g : σ → γ} (act : Host → Except BuildError α × Host) :
    Keeps (fun w => g w.engine) (Task.onHost act) := by
  intro w
  rw [Task.onHost]
  split <;> rfl

end Keeps

/-! ### Where tasks lead -/

/-- A task leads from every world to one that stands in a relation to it, also when it fails. -/
def Along (R : World σ → World σ → Prop) (t : Task σ α) : Prop := ∀ w, R w (t w).2

namespace Along

variable {R : World σ → World σ → Prop} [IsPreorder (World σ) R]

/-- Doing nothing leads nowhere else. -/
theorem pure (a : α) : Along R (Pure.pure a : Task σ α) := fun w => refl_of R w

/-- A task in two parts leads where its parts lead one after the other. -/
theorem bind {t : Task σ α} {f : α → Task σ β} (ht : Along R t) (hf : ∀ a, Along R (f a)) :
    Along R (t >>= f) := by
  intro w
  have hw := ht w
  rw [bind_apply]
  split
  · next a w₁ ha =>
      rw [ha] at hw
      exact trans_of R hw (hf a w₁)
  · next e w₁ he =>
      rw [he] at hw
      exact hw

/-- A task for every item leads where the tasks for the items lead one after the other. -/
theorem forAll {f : α → Task σ β} (hf : ∀ a, Along R (f a)) (items : List α) :
    Along R (Task.forAll f items) := by
  induction items with
  | nil => exact pure []
  | cons a rest ih => exact (hf a).bind fun b => ih.bind fun bs => pure (b :: bs)

end Along
end IncrementalBuild.Task
