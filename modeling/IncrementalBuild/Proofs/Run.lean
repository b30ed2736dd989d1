import IncrementalBuild.Engine.Recording
import IncrementalBuild.Proofs.OutputState
/-!
# Runs of builds

A run is any sequence of builds of one output. Between two builds anything may happen to the
host; only the output's state and what the engine keeps for itself pass from one to the next.

## Main definitions

* `Turn` — one build: what was requested, and what it met. `Turn.outcome` is how it ended.
* `Run` — the runs of a toolchain, with all their turns, the last one first.
* `Turn.report?`, `Turn.Reused` — how a turn was answered, and that it was answered with kept bytes.
* `Turn.references`, `Turn.sources` — what a turn that continues a compilation finds.
* `Turn.Founded` — the turn created a compilation.

## Main results

* `Turn.reused_iff` — a turn is answered with kept bytes exactly when its compilation was brought
  up to date and the bytes could be reused.
-/

namespace IncrementalBuild

variable {σ ρ φ υ : Type}

/-- One build: the request, with the state and the world that it met. -/
structure Turn (σ ρ φ υ : Type) where
  options : BuildOptions
  state : OutputState ρ φ υ
  world : World σ

namespace Turn

/-- How a turn ended. -/
def outcome (t : Toolchain σ ρ φ υ) (u : Turn σ ρ φ υ) : Outcome σ ρ φ υ :=
  u.state.build t u.options u.world

/-- The report that a turn makes, if it comes to one: what it leaves where there was none. -/
def report? (t : Toolchain σ ρ φ υ) (u : Turn σ ρ φ υ) : Option Report :=
  (({ u.state with report := none } : OutputState ρ φ υ).build t u.options u.world).state.report

/-- A turn that was answered with kept bytes. -/
def Reused (t : Toolchain σ ρ φ υ) (u : Turn σ ρ φ υ) : Prop :=
  (u.report? t).map Report.source = some .reused

instance (t : Toolchain σ ρ φ υ) (u : Turn σ ρ φ υ) : Decidable (u.Reused t) :=
  inferInstanceAs (Decidable (_ = _))

/-- The references as a turn that continues a compilation finds them. -/
def references (u : Turn σ ρ φ υ) : Snapshot :=
  (Snapshot.capture u.options.workDir u.options.referencePaths u.world.host).1

/-- The sources as a turn that continues a compilation finds them, after the references. -/
def sources (u : Turn σ ρ φ υ) : Snapshot :=
  (Snapshot.capture u.options.workDir u.options.sourcePaths
    (Snapshot.capture u.options.workDir u.options.referencePaths u.world.host).2).1

/-- A turn that created a compilation. -/
def Founded (t : Toolchain σ ρ φ υ) (u : Turn σ ρ φ υ) : Prop :=
  (u.outcome t).state.generation ≠ u.state.generation

end Turn

/-- The runs of a toolchain: their turns, the last one first, and what they lead to. -/
inductive Run (t : Toolchain σ ρ φ υ) : List (Turn σ ρ φ υ) → OutputState ρ φ υ → σ → Prop
  /-- Nothing was built yet. -/
  | start (engine : σ) : Run t [] {} engine
  /-- One more build, on whatever host there is by then. -/
  | next {turns : List (Turn σ ρ φ υ)} {s : OutputState ρ φ υ} {engine : σ}
      (run : Run t turns s engine) (o : BuildOptions) (host : Host) :
      Run t (⟨o, s, ⟨host, engine⟩⟩ :: turns) (s.build t o ⟨host, engine⟩).state
        (s.build t o ⟨host, engine⟩).world.engine

/-- The turn that comes after another. -/
def Turn.follow (t : Toolchain σ ρ φ υ) (u : Turn σ ρ φ υ) (o : BuildOptions) (host : Host) :
    Turn σ ρ φ υ :=
  ⟨o, (u.outcome t).state, ⟨host, (u.outcome t).world.engine⟩⟩

/-- The next turn meets the state that the turn before left. -/
@[simp] theorem Turn.follow_state (t : Toolchain σ ρ φ υ) (u : Turn σ ρ φ υ) (o : BuildOptions)
    (host : Host) : (u.follow t o host).state = (u.outcome t).state := rfl

/-- The next turn meets the engine that the turn before left. -/
@[simp] theorem Turn.follow_engine (t : Toolchain σ ρ φ υ) (u : Turn σ ρ φ υ) (o : BuildOptions)
    (host : Host) : (u.follow t o host).world.engine = (u.outcome t).world.engine := rfl

/-- A turn that meets no state yet is a run. -/
theorem Run.first (t : Toolchain σ ρ φ υ) {u : Turn σ ρ φ υ} (hu : u.state = {}) :
    Run t [u] (u.outcome t).state (u.outcome t).world.engine := by
  obtain ⟨o, s, ⟨host, engine⟩⟩ := u
  obtain rfl := hu
  exact (Run.start engine).next o host

/-- A run goes on with the turn that comes after its last one. -/
theorem Run.follow {t : Toolchain σ ρ φ υ} {turns : List (Turn σ ρ φ υ)} {u : Turn σ ρ φ υ}
    (run : Run t turns (u.outcome t).state (u.outcome t).world.engine) (o : BuildOptions)
    (host : Host) :
    Run t (u.follow t o host :: turns) ((u.follow t o host).outcome t).state
      ((u.follow t o host).outcome t).world.engine :=
  run.next o host

namespace Turn

variable {t : Toolchain σ ρ φ υ} {u : Turn σ ρ φ υ} {c c' : Compilation ρ φ υ} {plan : Plan}
  {w' : World σ} {k : KeptOutput}

/-- A turn that creates a compilation emits its unit. -/
theorem outcome_of_create (hnew : u.state.continued? u.options = none)
    (hcreate : Compilation.create t.engine u.options u.world = (.ok c, w')) :
    u.outcome t = OutputState.emitUnit t u.options c.unit { kind := .full, source := .emitted }
      (u.state.found u.options c) w' := by
  rw [outcome, OutputState.build, hnew]
  dsimp only
  rw [OutputState.buildFull, hcreate]
  rfl

/-- A turn that brings a compilation up to date goes on by whether bytes can be reused. -/
theorem outcome_of_updated (hold : u.state.continued? u.options = some c)
    (hupdate : c.update t.engine u.options u.world = (.ok (plan, c'), w')) :
    u.outcome t = match u.state.reusable? u.options plan.references plan.sources with
      | some k =>
        OutputState.reuse u.options k (plan.report .reused) (u.state.advance u.options c') w'
      | none => OutputState.emitUnit t u.options c'.unit (plan.report .emitted)
        (u.state.advance u.options c') w' := by
  rw [outcome, OutputState.build, hold]
  dsimp only
  rw [OutputState.buildIncremental, hupdate]
  rfl

/-- A turn whose bytes can be reused writes them again. -/
theorem outcome_of_reusable (hold : u.state.continued? u.options = some c)
    (hupdate : c.update t.engine u.options u.world = (.ok (plan, c'), w'))
    (hk : u.state.reusable? u.options plan.references plan.sources = some k) :
    u.outcome t =
      OutputState.reuse u.options k (plan.report .reused) (u.state.advance u.options c') w' := by
  rw [outcome_of_updated hold hupdate, hk]

/-- A turn that brings a compilation up to date emits its unit if no bytes can be reused. -/
theorem outcome_of_changed (hold : u.state.continued? u.options = some c)
    (hupdate : c.update t.engine u.options u.world = (.ok (plan, c'), w'))
    (hchanged : u.state.reusable? u.options plan.references plan.sources = none) :
    u.outcome t = OutputState.emitUnit t u.options c'.unit (plan.report .emitted)
      (u.state.advance u.options c') w' := by
  rw [outcome_of_updated hold hupdate, hchanged]

/-- A turn that brings a compilation up to date emits its unit or writes kept bytes again. -/
theorem outcome_of_update (hold : u.state.continued? u.options = some c)
    (hupdate : c.update t.engine u.options u.world = (.ok (plan, c'), w')) :
    u.outcome t = OutputState.emitUnit t u.options c'.unit (plan.report .emitted)
        (u.state.advance u.options c') w' ∨
      ∃ k, u.outcome t =
        OutputState.reuse u.options k (plan.report .reused) (u.state.advance u.options c') w' := by
  rcases hk : u.state.reusable? u.options plan.references plan.sources with _ | k
  · exact .inl (outcome_of_changed hold hupdate hk)
  · exact .inr ⟨k, outcome_of_reusable hold hupdate hk⟩

/-- A turn whose bytes can be reused reports so. -/
theorem report?_of_reusable (hold : u.state.continued? u.options = some c)
    (hupdate : c.update t.engine u.options u.world = (.ok (plan, c'), w'))
    (hk : u.state.reusable? u.options plan.references plan.sources = some k) :
    u.report? t = some (plan.report .reused) := by
  have h := outcome_of_reusable (u := ⟨u.options, { u.state with report := none }, u.world⟩)
    hold hupdate hk
  rw [outcome] at h
  rw [report?, h, (OutputState.reuse_frame _ _ _ _ _).1]

/-- **Reuse.** A turn is answered with kept bytes exactly when its compilation was brought up to
date and the bytes could be reused. -/
theorem reused_iff : u.Reused t ↔ ∃ c c' plan w' k, u.state.continued? u.options = some c ∧
    c.update t.engine u.options u.world = (.ok (plan, c'), w') ∧
    u.state.reusable? u.options plan.references plan.sources = some k := by
  constructor
  · intro h
    obtain ⟨report, hreport, hsource⟩ := Option.map_eq_some_iff.mp h
    have hcourse := OutputState.course_build t u.options { u.state with report := none } u.world
    rw [report?] at hreport
    generalize ({ u.state with report := none } : OutputState ρ φ υ).build t u.options u.world =
      out at hcourse hreport
    cases hcourse with
    | unfounded => exact absurd hreport (by simp)
    | stuck => exact absurd hreport (by simp)
    | @founded c w' =>
        obtain ⟨kept, after, hstate, rfl | rfl⟩ := OutputState.emitUnit_frame t u.options c.unit
          { kind := .full, source := .emitted }
          (OutputState.found { u.state with report := none } u.options c) w'
        · rw [hstate] at hreport
          obtain rfl := Option.some.inj hreport
          exact absurd hsource (by simp)
        · rw [hstate] at hreport
          exact absurd hreport (by simp [OutputState.found])
    | @emitted c c' plan w' =>
        obtain ⟨kept, after, hstate, rfl | rfl⟩ := OutputState.emitUnit_frame t u.options c'.unit
          (plan.report .emitted)
          (OutputState.advance { u.state with report := none } u.options c') w'
        · rw [hstate] at hreport
          obtain rfl := Option.some.inj hreport
          exact absurd hsource (by simp [Plan.report])
        · rw [hstate] at hreport
          exact absurd hreport (by simp [OutputState.advance])
    | @reused c c' plan w' k old update unchanged =>
        exact ⟨c, c', plan, w', k, old, update, unchanged⟩
  · rintro ⟨c, c', plan, w', k, hold, hupdate, hk⟩
    rw [Reused, report?_of_reusable hold hupdate hk]
    rfl

end Turn

/-- The engine that records, with a converter that does nothing, for runs that are looked at. -/
def Recording.toolchain : Toolchain State Reference Source RecordedUnit := ⟨engine, .exiting 0⟩

end IncrementalBuild
