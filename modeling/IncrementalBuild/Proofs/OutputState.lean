import IncrementalBuild.OutputState
import IncrementalBuild.Proofs.Compilation
/-!
# What one build does

A build goes one of five ways. It is refused while its compilation is created or brought up to
date; it emits a new compilation or one brought up to date; or it writes the kept bytes again.

## Main definitions

* `Course` — the ways a build goes, each with its outcome.
* `OutputState.references?`, `OutputState.sources?` — the committed snapshots of a state.

## Main results

* `OutputState.course_build` — every build goes one of these ways.
* `emit_eq_of_error`, `emit_of_ok` — an emit by what the engine did.
-/

namespace IncrementalBuild

variable {σ ρ φ υ γ : Type}

/-! ### Emitting -/

/-- What an emit yields, given what the engine put out. -/
structure Emitted.Of (o : BuildOptions) (output : EmitOutput) (e : Emitted) : Prop where
  succeeded : e.result.succeeded =
    (BuildResult.ofDiagnostics output.succeeded output.diagnostics).succeeded
  /-- Bytes are kept of a success only, and they are the engine's. -/
  kept : ∀ k, e.kept = some k →
    e.result.succeeded = true ∧ k.binary = output.binary ∧ k.mode = o.debugSymbols

/-- A result that tells of the engine's success, with the bytes kept of it. -/
theorem Emitted.of_result {o : BuildOptions} {output : EmitOutput} {result : BuildResult}
    (h : result.succeeded =
      (BuildResult.ofDiagnostics output.succeeded output.diagnostics).succeeded)
    (symbols : Option Bytes) :
    Emitted.Of o output
      ⟨result,
        if result.succeeded then some ⟨output.binary, symbols, o.debugSymbols⟩ else none⟩ := by
  refine ⟨h, fun k hk => ?_⟩
  dsimp only at hk ⊢
  split at hk
  · next hs =>
      obtain rfl := Option.some.inj hk
      exact ⟨hs, rfl, rfl⟩
  · exact absurd hk (by simp)

/-- A failed conversion of symbols does not make a build fail. -/
theorem convertWritten_succeeded (converter : Converter) (o : BuildOptions)
    (result : BuildResult) (h : Host) :
    (convertWritten converter o result h).1.1.succeeded = result.succeeded := by
  rw [convertWritten]
  split <;> rfl

/-- An emit fails as the engine fails. -/
theorem emit_eq_of_error {t : Toolchain σ ρ φ υ} {unit : υ} {o : BuildOptions} {w w' : World σ}
    {e : Failure} (h : t.engine.emit unit o.debugSymbols.emitFormat? w = (.error e, w')) :
    emit t unit o w = (.error e, w') := by
  rw [emit, Task.bind_apply, h]

/-- After the engine, an emit works on the host only, and what it yields is what the engine put
out. -/
theorem emit_of_ok {t : Toolchain σ ρ φ υ} {unit : υ} {o : BuildOptions} {w w' : World σ}
    {output : EmitOutput}
    (h : t.engine.emit unit o.debugSymbols.emitFormat? w = (.ok output, w')) :
    (emit t unit o w).2.engine = w'.engine ∧
      ∀ e w'', emit t unit o w = (.ok e, w'') → e.Of o output := by
  rw [emit, Task.bind_apply, h]
  constructor
  · refine Task.Keeps.bind (f := World.engine) (Task.Keeps.onHost (g := id) _) (fun _ => ?_) w'
    refine Task.Keeps.bind (Task.Keeps.onHost (g := id) _) fun written => ?_
    dsimp only
    split
    · exact (Task.Keeps.onHost (g := id) _).bind fun _ => Task.Keeps.pure _
    · exact (Task.Keeps.pure _).bind fun _ => Task.Keeps.pure _
  · intro e w'' h
    obtain ⟨-, w₁, -, h⟩ := Task.bind_eq_ok h
    obtain ⟨written, w₂, -, h⟩ := Task.bind_eq_ok h
    dsimp only at h
    split at h
    · obtain ⟨⟨result, symbols⟩, w₃, hconverted, h⟩ := Task.bind_eq_ok h
      obtain ⟨rfl, -⟩ := Task.pure_eq_ok h
      rw [Task.onHost, Prod.mk.injEq] at hconverted
      obtain ⟨hresult, -⟩ := hconverted
      have hfst := congrArg (fun r => r.1.succeeded) (Except.ok.inj hresult)
      exact Emitted.of_result (hfst.symm.trans (convertWritten_succeeded _ _ _ _)) symbols
    · obtain ⟨⟨result, symbols⟩, w₃, hdone, h⟩ := Task.bind_eq_ok h
      obtain ⟨rfl, -⟩ := Task.pure_eq_ok h
      obtain ⟨heq, -⟩ := Task.pure_eq_ok hdone
      obtain ⟨rfl, rfl⟩ := Prod.mk.inj heq
      exact Emitted.of_result rfl _

/-! ### Building -/

namespace OutputState

/-- The references that a state is compared with. -/
def references? (s : OutputState ρ φ υ) : Option Snapshot :=
  s.compilation.bind Compilation.references?

/-- The sources that a state is compared with. -/
def sources? (s : OutputState ρ φ υ) : Option Snapshot :=
  s.compilation.bind Compilation.sources?

/-- A state that has just been founded on a new compilation. -/
def found (s : OutputState ρ φ υ) (o : BuildOptions) (c : Compilation ρ φ υ) :
    OutputState ρ φ υ :=
  { s with options := some o, compilation := some c, kept := none, generation := s.generation + 1 }

/-- A state with its compilation brought up to date. -/
def advance (s : OutputState ρ φ υ) (o : BuildOptions) (c : Compilation ρ φ υ) :
    OutputState ρ φ υ :=
  { s with options := some o, compilation := some c }

end OutputState

/-- The report on a build that continued a compilation. -/
def Plan.report (p : Plan) (source : OutputSource) : Report where
  kind := .incremental
  source := source
  references := p.references
  sources := p.sources

/-- The ways a build goes. -/
inductive Course (t : Toolchain σ ρ φ υ) (o : BuildOptions) (s : OutputState ρ φ υ)
    (w : World σ) : Outcome σ ρ φ υ → Prop
  /-- A new compilation could not be created. -/
  | unfounded {e : Failure} {w' : World σ} (new : s.continued? o = none)
      (create : Compilation.create t.engine o w = (.error e, w')) : Course t o s w ⟨.error e, s, w'⟩
  /-- A new compilation was created, and its unit emitted. -/
  | founded {c : Compilation ρ φ υ} {w' : World σ} (new : s.continued? o = none)
      (create : Compilation.create t.engine o w = (.ok c, w')) :
      Course t o s w
        (OutputState.emitUnit t o c.unit { kind := .full, source := .emitted } (s.found o c) w')
  /-- The compilation could not be brought up to date. -/
  | stuck {c : Compilation ρ φ υ} {e : Failure} {w' : World σ} (old : s.continued? o = some c)
      (update : c.update t.engine o w = (.error e, w')) : Course t o s w ⟨.error e, s, w'⟩
  /-- The compilation was brought up to date, and its unit emitted. -/
  | emitted {c c' : Compilation ρ φ υ} {plan : Plan} {w' : World σ} (old : s.continued? o = some c)
      (update : c.update t.engine o w = (.ok (plan, c'), w'))
      (changed : s.reusable? o plan.references plan.sources = none) :
      Course t o s w
        (OutputState.emitUnit t o c'.unit (plan.report .emitted) (s.advance o c') w')
  /-- The compilation was brought up to date, and the kept bytes written again. -/
  | reused {c c' : Compilation ρ φ υ} {plan : Plan} {w' : World σ} {k : KeptOutput}
      (old : s.continued? o = some c) (update : c.update t.engine o w = (.ok (plan, c'), w'))
      (unchanged : s.reusable? o plan.references plan.sources = some k) :
      Course t o s w (OutputState.reuse o k (plan.report .reused) (s.advance o c') w')

namespace OutputState

variable {t : Toolchain σ ρ φ υ} {o : BuildOptions} {s : OutputState ρ φ υ} {w : World σ}

/-- **Inversion.** Every build goes one of the five ways. -/
theorem course_build (t : Toolchain σ ρ φ υ) (o : BuildOptions) (s : OutputState ρ φ υ)
    (w : World σ) : Course t o s w (s.build t o w) := by
  rw [build]
  split
  · next c hold =>
      rw [buildIncremental]
      split
      · next e w' hupdate => exact .stuck hold hupdate
      · next plan c' w' hupdate =>
          dsimp only
          split
          · next k hreusable => exact .reused hold hupdate hreusable
          · next hreusable => exact .emitted hold hupdate hreusable
  · next hnew =>
      rw [buildFull]
      split
      · next e w' hcreate => exact .unfounded hnew hcreate
      · next c w' hcreate => exact .founded hnew hcreate

/-- A request continues the compilation that was set up for the same identity. -/
theorem continued?_eq_some {c : Compilation ρ φ υ} (h : s.continued? o = some c) :
    ∃ previous, s.options = some previous ∧ previous.sameIdentity o = true ∧
      s.compilation = some c := by
  rw [continued?] at h
  split at h
  · next previous hprevious =>
      split at h
      · next hsame => exact ⟨previous, hprevious, hsame, h⟩
      · exact absurd h (by simp)
  · exact absurd h (by simp)

/-- Bytes are reused under a policy that allows it, and for the mode they were made for. -/
theorem reusable?_eq_some {references sources : Changes} {k : KeptOutput}
    (h : s.reusable? o references sources = some k) :
    o.outputReuse.allows references sources = true ∧ s.kept = some k ∧ k.mode = o.debugSymbols := by
  rw [reusable?] at h
  split at h
  · next hallows =>
      obtain ⟨hkept, hfits⟩ := Option.filter_eq_some_iff.mp h
      rw [KeptOutput.fits, beq_iff_eq] at hfits
      exact ⟨hallows, hkept, hfits⟩
  · exact absurd h (by simp)

/-- Writing kept bytes again changes the report of a state and nothing else. -/
theorem reuse_frame (o : BuildOptions) (k : KeptOutput) (report : Report)
    (s : OutputState ρ φ υ) (w : World σ) :
    (reuse o k report s w).state = { s with report := some report } ∧
      (reuse o k report s w).world.engine = w.engine := by
  unfold reuse
  cases k.write o w.host with
  | mk written host =>
      cases written with
      | ok => exact ⟨rfl, rfl⟩
      | error => exact ⟨rfl, rfl⟩

/-- Kept bytes that can be written are the answer. -/
theorem reuse_of_ok {k : KeptOutput} {report : Report} (h : (k.write o w.host).1 = .ok ()) :
    (reuse o k report s w).result = .ok .success := by
  unfold reuse
  rcases hwrite : k.write o w.host with ⟨written, host⟩
  rw [hwrite] at h
  obtain rfl : written = .ok () := h
  rfl

/-- Emitting changes the kept bytes and the report of a state and nothing else. -/
theorem emitUnit_frame (t : Toolchain σ ρ φ υ) (o : BuildOptions) (unit : υ) (report : Report)
    (s : OutputState ρ φ υ) (w : World σ) :
    ∃ kept after, (emitUnit t o unit report s w).state = { s with kept, report := after } ∧
      (after = some report ∨ after = s.report) := by
  rw [emitUnit]
  split
  · exact ⟨_, _, rfl, .inl rfl⟩
  · exact ⟨_, _, rfl, .inr rfl⟩
  · exact ⟨_, _, rfl, .inl rfl⟩

end OutputState
end IncrementalBuild
