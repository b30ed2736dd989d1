import IncrementalBuild.Compilation
import IncrementalBuild.Host
import IncrementalBuild.Proofs.Changes
import IncrementalBuild.Proofs.Schedule
/-!
# Creating compilations and bringing them up to date

## Main definitions

* `Compilation.references?`, `Compilation.sources?` — the committed snapshots.
* `Compilation.Committed` — both snapshots were committed, and are in path order.

## Main results

* `Compilation.create_eq_ok`, `Compilation.update_eq_ok` — creating and updating, taken apart.
* `Compilation.committed_of_create`, `Compilation.committed_of_update` — what they commit.
* `Assembly.apply_keeps` — what adding and removing one handle keep, applying changes keeps.
-/

namespace IncrementalBuild

variable {σ ρ φ υ η γ : Type}

/-! ### Snapshots -/

/-- A captured snapshot is in path order. -/
theorem Snapshot.sorted_capture (base : Path) (paths : List Path) (h : Host) :
    (Snapshot.capture base paths h).1.Sorted :=
  sorted_ofStamps _

/-- Capturing a collection keeps what the engine's own state decides. -/
theorem keeps_capture {f : σ → γ} (o : BuildOptions) (paths : List Path) :
    Task.Keeps (fun w => f w.engine) (capture o paths) :=
  Task.Keeps.onHost _

/-! ### Applying changes -/

namespace Assembly

variable {add remove : η → υ → σ → υ × σ} {P : υ → σ → Prop}

/-- Taking a handle out keeps what removing one keeps. -/
theorem take_keeps (hremove : ∀ x u e, P u e → P (remove x u e).1 (remove x u e).2)
    {a : Assembly η υ σ} (h : P a.unit a.engine) (p : Path) :
    P (a.take remove p).unit (a.take remove p).engine := by
  rw [take]
  split
  · exact h
  · exact hremove _ _ _ h

/-- Putting a handle in keeps what adding and removing one keep. -/
theorem put_keeps (hadd : ∀ x u e, P u e → P (add x u e).1 (add x u e).2)
    (hremove : ∀ x u e, P u e → P (remove x u e).1 (remove x u e).2) (fresh : PathMap η)
    {a : Assembly η υ σ} (h : P a.unit a.engine) (p : Path) :
    P (a.put add remove fresh p).unit (a.put add remove fresh p).engine := by
  rw [put]
  split
  · exact h
  · exact hadd _ _ _ (take_keeps hremove h p)

/-- **Frame.** Applying changes keeps what adding and removing one handle keep. -/
theorem apply_keeps (hadd : ∀ x u e, P u e → P (add x u e).1 (add x u e).2)
    (hremove : ∀ x u e, P u e → P (remove x u e).1 (remove x u e).2) (changes : Changes)
    (fresh : PathMap η) {a : Assembly η υ σ} (h : P a.unit a.engine) :
    P (a.apply add remove changes fresh).unit (a.apply add remove changes fresh).engine := by
  rw [apply]
  have hput : P (changes.touched.foldl (put add remove fresh) a).unit
      (changes.touched.foldl (put add remove fresh) a).engine := by
    generalize changes.touched = touched
    induction touched generalizing a with
    | nil => exact h
    | cons p rest ih => exact ih (put_keeps hadd hremove fresh h p)
  generalize changes.touched.foldl (put add remove fresh) a = b at hput
  generalize changes.removed = removed
  induction removed generalizing b with
  | nil => exact hput
  | cons p rest ih => exact ih _ (take_keeps hremove hput p)

end Assembly

namespace Compilation

variable {c c' : Compilation ρ φ υ} {engine : Engine σ ρ φ υ} {o : BuildOptions} {plan : Plan}
  {w w' : World σ}

/-- The references that a compilation is compared with. -/
def references? (c : Compilation ρ φ υ) : Option Snapshot := c.referenceBaseline.committed

/-- The sources that a compilation is compared with. -/
def sources? (c : Compilation ρ φ υ) : Option Snapshot := c.sourceBaseline.committed

/-- Both collections were committed, each in path order. -/
structure Committed (c : Compilation ρ φ υ) (references sources : Snapshot) : Prop where
  references_eq : c.references? = some references
  sources_eq : c.sources? = some sources
  references_sorted : references.Sorted
  sources_sorted : sources.Sorted

/-! ### Creating -/

/-- **Creation, taken apart.** The snapshots come first, then every handle, then the unit. -/
theorem create_eq_ok (h : create engine o w = (.ok c, w')) :
    ∃ (references : Snapshot × Host) (sources : Snapshot × Host)
        (resolved : List (Path × ρ)) (parsed : List (Path × φ)) (w₁ w₂ : World σ),
      references = Snapshot.capture o.workDir (distinct o.referencePaths) w.host ∧
      sources = Snapshot.capture o.workDir (distinct o.sourcePaths) references.2 ∧
      resolveAll engine o w.host.resolving (distinct o.referencePaths) ⟨sources.2, w.engine⟩ =
        (.ok resolved, w₁) ∧
      parseAll engine o w.host.parsing (distinct o.sourcePaths) w₁ = (.ok parsed, w₂) ∧
      engine.buildUnit (parsed.map Prod.snd) (resolved.map Prod.snd) o.unitSettings w₂ =
        (.ok c.unit, w') ∧
      c.references = .ofList resolved ∧ c.sources = .ofList parsed ∧
      c.Committed references.1 sources.1 := by
  obtain ⟨references, w₁, hreferences, h⟩ := Task.bind_eq_ok h
  obtain ⟨sources, w₂, hsources, h⟩ := Task.bind_eq_ok h
  obtain ⟨resolved, w₃, hresolved, h⟩ := Task.bind_eq_ok h
  obtain ⟨parsed, w₄, hparsed, h⟩ := Task.bind_eq_ok h
  obtain ⟨unit, w₅, hunit, h⟩ := Task.bind_eq_ok h
  obtain ⟨rfl, rfl⟩ := Task.pure_eq_ok h
  rw [capture, Task.onHost, Prod.mk.injEq] at hreferences hsources
  obtain ⟨hr, rfl⟩ := hreferences
  obtain ⟨hs, rfl⟩ := hsources
  obtain rfl := Except.ok.inj hr
  obtain rfl := Except.ok.inj hs
  exact ⟨_, _, resolved, parsed, w₃, w₄, rfl, rfl, hresolved, hparsed, hunit, rfl, rfl,
    ⟨rfl, rfl, Snapshot.sorted_capture _ _ _, Snapshot.sorted_capture _ _ _⟩⟩

/-! ### Updating -/

/-- What a compilation finds changed for a request. -/
theorem plan_eq_ok (h : c.plan o w = (.ok plan, w')) :
    ∃ references sources : Snapshot × Host,
      references = Snapshot.capture o.workDir o.referencePaths w.host ∧
      sources = Snapshot.capture o.workDir o.sourcePaths references.2 ∧
      plan = {
        references := c.referenceBaseline.changesTo references.1
        sources := c.sourceBaseline.changesTo sources.1
        referenceSnapshot := references.1
        sourceSnapshot := sources.1 } ∧
      w' = ⟨sources.2, w.engine⟩ := by
  obtain ⟨references, w₁, hreferences, h⟩ := Task.bind_eq_ok h
  obtain ⟨sources, w₂, hsources, h⟩ := Task.bind_eq_ok h
  obtain ⟨rfl, rfl⟩ := Task.pure_eq_ok h
  rw [capture, Task.onHost, Prod.mk.injEq] at hreferences hsources
  obtain ⟨hr, rfl⟩ := hreferences
  obtain ⟨hs, rfl⟩ := hsources
  obtain rfl := Except.ok.inj hr
  obtain rfl := Except.ok.inj hs
  exact ⟨_, _, rfl, rfl, rfl, rfl⟩

/-- **Update, taken apart** into its three steps. -/
theorem update_eq_ok (h : c.update engine o w = (.ok (plan, c'), w')) :
    ∃ fresh w₁ w₂, c.plan o w = (.ok plan, w₁) ∧
      plan.prepare engine o w₁ = (.ok fresh, w₂) ∧
      c.apply engine plan fresh w₂ = (.ok c', w') := by
  obtain ⟨plan', w₁, hplan, h⟩ := Task.bind_eq_ok h
  obtain ⟨fresh, w₂, hfresh, h⟩ := Task.bind_eq_ok h
  obtain ⟨c'', w₃, happly, h⟩ := Task.bind_eq_ok h
  obtain ⟨heq, rfl⟩ := Task.pure_eq_ok h
  obtain ⟨rfl, rfl⟩ := Prod.mk.inj heq
  exact ⟨fresh, w₁, w₂, hplan, hfresh, happly⟩

/-- An update goes through when its three steps do. -/
theorem update_of_steps {fresh : Fresh ρ φ} {w₁ w₂ : World σ} (hplan : c.plan o w = (.ok plan, w₁))
    (hprepare : plan.prepare engine o w₁ = (.ok fresh, w₂))
    (happly : c.apply engine plan fresh w₂ = (.ok c', w')) :
    c.update engine o w = (.ok (plan, c'), w') := by
  simp only [update, Task.bind_apply, hplan, hprepare, happly]
  rfl

/-- An update takes its snapshots first, the references before the sources. -/
theorem snapshots_of_update (h : c.update engine o w = (.ok (plan, c'), w')) :
    plan.referenceSnapshot = (Snapshot.capture o.workDir o.referencePaths w.host).1 ∧
      plan.sourceSnapshot = (Snapshot.capture o.workDir o.sourcePaths
        (Snapshot.capture o.workDir o.referencePaths w.host).2).1 := by
  obtain ⟨fresh, w₁, w₂, hplan, -, -⟩ := update_eq_ok h
  obtain ⟨r, s, rfl, rfl, rfl, -⟩ := plan_eq_ok hplan
  exact ⟨rfl, rfl⟩

/-- An update commits the snapshots that its changes lead to. -/
theorem committed_of_update {references sources : Snapshot}
    (hc : c.Committed references sources) (h : c.update engine o w = (.ok (plan, c'), w')) :
    c'.Committed plan.referenceSnapshot plan.sourceSnapshot ∧
      plan.references = .between references plan.referenceSnapshot ∧
      plan.sources = .between sources plan.sourceSnapshot := by
  obtain ⟨fresh, w₁, w₂, hplan, -, happly⟩ := update_eq_ok h
  obtain ⟨r, s, rfl, rfl, rfl, -⟩ := plan_eq_ok hplan
  rw [apply, Task.onEngine, Prod.mk.injEq] at happly
  obtain rfl := Except.ok.inj happly.1
  have hr : c.referenceBaseline = ⟨some references⟩ := congrArg Baseline.mk hc.references_eq
  have hs : c.sourceBaseline = ⟨some sources⟩ := congrArg Baseline.mk hc.sources_eq
  refine ⟨⟨rfl, rfl, Snapshot.sorted_capture _ _ _, Snapshot.sorted_capture _ _ _⟩, ?_, ?_⟩
  · rw [hr]
    rfl
  · rw [hs]
    rfl

end Compilation
end IncrementalBuild
