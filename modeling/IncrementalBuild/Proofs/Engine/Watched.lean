import IncrementalBuild.Proofs.OutputState
/-!
# The watched engine

Any engine can be watched: a ledger beside its own state records every call that it gets, in
order, and every unit carries the settings it was built with. Watching changes nothing else, so
that what is shown of builds with a watched engine is shown of builds with the engine itself.

## Main definitions

* `EngineCall`, `Emission` — the calls of an engine; of an emit also its outcome.
* `Ledger`, `Ledger.emissions` — an engine's own state with its calls, and the emits among them.
* `Labelled` — a unit with the settings it was built with.
* `Engine.watched`, `Toolchain.watched` — an engine, or the engine of a toolchain, watched.

## Main results

* `Engine.emissions_of_create`, `Engine.emissions_of_update` — nothing is emitted while a
  compilation is created or brought up to date.
* `Engine.settings_of_create`, `Engine.settings_of_update` — a unit keeps the settings it was
  created with.
* `OutputState.emitUnit_emits` — emitting a unit is one emission, from which all that is kept comes.

## Ledger convention

A call is recorded whether it succeeds, fails or crashes. Only an emit is recorded with its
outcome, since only emits yield output.
-/

namespace IncrementalBuild

variable {σ ρ φ υ α : Type}

/-- One emit of a unit. -/
structure Emission where
  /-- The settings that the unit was built with. -/
  settings : UnitSettings
  format : Option SymbolFormat
  outcome : Except Failure EmitOutput

/-- One call of an engine. -/
inductive EngineCall (ρ φ : Type)
  | resolveReference (path : Path)
  | parseSource (path : Path) (defines : List String)
  | buildUnit (sources : List φ) (references : List ρ) (settings : UnitSettings)
  | addReference (handle : ρ)
  | removeReference (handle : ρ)
  | addSource (handle : φ)
  | removeSource (handle : φ)
  | emit (emission : Emission)

/-- The emit that a call is, if it is one. -/
def EngineCall.emission? : EngineCall ρ φ → Option Emission
  | .emit emission => some emission
  | _ => none

/-- An engine's own state, with the calls that the engine got, the first one first. -/
structure Ledger (σ ρ φ : Type) where
  state : σ
  calls : List (EngineCall ρ φ) := []

/-- The emits among the calls. -/
def Ledger.emissions (l : Ledger σ ρ φ) : List Emission := l.calls.filterMap EngineCall.emission?

/-- A unit with the settings it was built with. -/
structure Labelled (υ : Type) where
  unit : υ
  settings : UnitSettings

namespace Engine

/-- A task of an engine, with the call that it was recorded in the ledger. -/
def watchTask (call : Except Failure α → EngineCall ρ φ) (t : Task σ α) :
    Task (Ledger σ ρ φ) α := fun w =>
  let done := t ⟨w.host, w.engine.state⟩
  (done.1, ⟨done.2.host, ⟨done.2.engine, w.engine.calls ++ [call done.1]⟩⟩)

/-- A change of a unit, with the call that it was recorded in the ledger. -/
def watchChange (call : EngineCall ρ φ) (f : υ → σ → υ × σ) :
    Labelled υ → Ledger σ ρ φ → Labelled υ × Ledger σ ρ φ := fun u l =>
  let changed := f u.unit l.state
  (⟨changed.1, u.settings⟩, ⟨changed.2, l.calls ++ [call]⟩)

/-- An engine that records its calls and labels its units. -/
def watched (e : Engine σ ρ φ υ) : Engine (Ledger σ ρ φ) ρ φ (Labelled υ) where
  resolveReference p := watchTask (fun _ => .resolveReference p) (e.resolveReference p)
  parseSource p defines := watchTask (fun _ => .parseSource p defines) (e.parseSource p defines)
  buildUnit sources references settings := do
    let unit ← watchTask (fun _ => .buildUnit sources references settings)
      (e.buildUnit sources references settings)
    return ⟨unit, settings⟩
  addReference r := watchChange (.addReference r) (e.addReference r)
  removeReference r := watchChange (.removeReference r) (e.removeReference r)
  addSource f := watchChange (.addSource f) (e.addSource f)
  removeSource f := watchChange (.removeSource f) (e.removeSource f)
  emit u format :=
    watchTask (fun outcome => .emit ⟨u.settings, format, outcome⟩) (e.emit u.unit format)

end Engine

/-- A toolchain with its engine watched. -/
def Toolchain.watched (t : Toolchain σ ρ φ υ) : Toolchain (Ledger σ ρ φ) ρ φ (Labelled υ) where
  engine := t.engine.watched
  converter := t.converter

/-- The engine of a watched toolchain. -/
theorem Toolchain.watched_engine (t : Toolchain σ ρ φ υ) : t.watched.engine = t.engine.watched :=
  rfl

/-! ### What is not an emission -/

/-- The emits of a ledger with one more call. -/
theorem Ledger.emissions_record (l : Ledger σ ρ φ) (state : σ) (call : EngineCall ρ φ) :
    (⟨state, l.calls ++ [call]⟩ : Ledger σ ρ φ).emissions =
      l.emissions ++ call.emission?.toList := by
  rw [emissions, List.filterMap_append, emissions]
  cases h : call.emission? <;> simp [h]

namespace Engine

variable {e : Engine σ ρ φ υ}

/-- A task that is not an emit emits nothing. -/
theorem keeps_watchTask {call : Except Failure α → EngineCall ρ φ}
    (hcall : ∀ r, (call r).emission? = none) (t : Task σ α) :
    Task.Keeps (fun w => w.engine.emissions) (watchTask call t) := by
  intro w
  rw [watchTask]
  dsimp only
  rw [Ledger.emissions_record, hcall, Option.toList_none, List.append_nil]

/-- A change of a unit emits nothing and keeps its settings. -/
theorem watchChange_keeps {call : EngineCall ρ φ} (hcall : call.emission? = none)
    (f : υ → σ → υ × σ) (u : Labelled υ) (l : Ledger σ ρ φ) :
    (watchChange call f u l).1.settings = u.settings ∧
      (watchChange call f u l).2.emissions = l.emissions := by
  refine ⟨rfl, ?_⟩
  rw [watchChange]
  dsimp only
  rw [Ledger.emissions_record, hcall, Option.toList_none, List.append_nil]

/-- Resolving references emits nothing. -/
theorem keeps_resolveAll (e : Engine σ ρ φ υ) (o : BuildOptions) (s : Schedule)
    (paths : List Path) :
    Task.Keeps (fun w => w.engine.emissions) (resolveAll e.watched o s paths) := by
  refine Task.Keeps.gatherAll (fun p => ?_) s paths
  exact keeps_watchTask (fun _ => rfl) (e.resolveReference (o.resolve p))

/-- Parsing sources emits nothing. -/
theorem keeps_parseAll (e : Engine σ ρ φ υ) (o : BuildOptions) (s : Schedule)
    (paths : List Path) :
    Task.Keeps (fun w => w.engine.emissions) (parseAll e.watched o s paths) := by
  refine Task.Keeps.gatherAll (fun p => ?_) s paths
  exact keeps_watchTask (fun _ => rfl) (e.parseSource (o.resolve p) o.defines)

/-- Creating a compilation emits nothing. -/
theorem keeps_create (e : Engine σ ρ φ υ) (o : BuildOptions) :
    Task.Keeps (fun w => w.engine.emissions) (Compilation.create e.watched o) := by
  intro w
  refine ((keeps_capture o _).bind fun _ => (keeps_capture o _).bind fun _ => ?_) w
  refine (keeps_resolveAll e o _ _).bind fun _ => (keeps_parseAll e o _ _).bind fun _ => ?_
  refine Task.Keeps.bind ?_ fun _ => Task.Keeps.pure _
  exact (keeps_watchTask (fun _ => rfl) _).bind fun _ => Task.Keeps.pure _

/-- However creating a compilation ends, nothing was emitted. -/
theorem emissions_of_create {o : BuildOptions} {w w' : World (Ledger σ ρ φ)}
    {r : Except Failure (Compilation ρ φ (Labelled υ))}
    (h : Compilation.create e.watched o w = (r, w')) :
    w'.engine.emissions = w.engine.emissions := by
  have hkeeps := keeps_create e o w
  rw [h] at hkeeps
  exact hkeeps

/-- A new unit has the settings of its request. -/
theorem settings_of_create {o : BuildOptions} {w w' : World (Ledger σ ρ φ)}
    {c : Compilation ρ φ (Labelled υ)} (h : Compilation.create e.watched o w = (.ok c, w')) :
    c.unit.settings = o.unitSettings := by
  obtain ⟨_, _, _, _, _, _, -, -, -, -, hunit, -⟩ := Compilation.create_eq_ok h
  obtain ⟨unit, _, -, hunit⟩ := Task.bind_eq_ok hunit
  obtain ⟨hunit, -⟩ := Task.pure_eq_ok hunit
  rw [← hunit]

/-- Applying a plan emits nothing and keeps the unit's settings. -/
theorem apply_watched (c : Compilation ρ φ (Labelled υ)) (e : Engine σ ρ φ υ) (plan : Plan)
    (fresh : Fresh ρ φ) (w : World (Ledger σ ρ φ)) :
    ∃ c' w', c.apply e.watched plan fresh w = (.ok c', w') ∧
      c'.unit.settings = c.unit.settings ∧ w'.engine.emissions = w.engine.emissions := by
  refine ⟨_, _, rfl, ?_⟩
  have hchange : ∀ (call : EngineCall ρ φ) (_ : call.emission? = none) (f : υ → σ → υ × σ) u l,
      (u.settings = c.unit.settings ∧ l.emissions = w.engine.emissions) →
      (watchChange call f u l).1.settings = c.unit.settings ∧
        (watchChange call f u l).2.emissions = w.engine.emissions := by
    rintro call hcall f u l ⟨hsettings, hemissions⟩
    obtain ⟨h₁, h₂⟩ := watchChange_keeps hcall f u l
    exact ⟨h₁.trans hsettings, h₂.trans hemissions⟩
  let P : Labelled υ → Ledger σ ρ φ → Prop := fun u l =>
    u.settings = c.unit.settings ∧ l.emissions = w.engine.emissions
  have hreferences := Assembly.apply_keeps (P := P)
    (fun r => hchange (.addReference r) rfl (e.addReference r))
    (fun r => hchange (.removeReference r) rfl (e.removeReference r))
    plan.references fresh.references (a := ⟨c.references, c.unit, w.engine⟩) ⟨rfl, rfl⟩
  exact Assembly.apply_keeps (P := P) (fun f => hchange (.addSource f) rfl (e.addSource f))
    (fun f => hchange (.removeSource f) rfl (e.removeSource f)) plan.sources fresh.sources
    (a := ⟨c.sources, _, _⟩) hreferences

/-- Bringing a compilation up to date emits nothing. -/
theorem keeps_update (c : Compilation ρ φ (Labelled υ)) (e : Engine σ ρ φ υ) (o : BuildOptions) :
    Task.Keeps (fun w => w.engine.emissions) (c.update e.watched o) := by
  refine Task.Keeps.bind ?_ fun plan => Task.Keeps.bind ?_ fun fresh => Task.Keeps.bind ?_
    fun _ => Task.Keeps.pure _
  · exact (keeps_capture o _).bind fun _ => (keeps_capture o _).bind fun _ => Task.Keeps.pure _
  · exact fun w => ((keeps_resolveAll e o _ _).bind fun _ =>
      (keeps_parseAll e o _ _).bind fun _ => Task.Keeps.pure _) w
  · intro w
    obtain ⟨c', w', happly, -, hemissions⟩ := apply_watched c e plan fresh w
    rw [happly]
    exact hemissions

/-- However bringing a compilation up to date ends, nothing was emitted. -/
theorem emissions_of_update {c : Compilation ρ φ (Labelled υ)} {o : BuildOptions}
    {w w' : World (Ledger σ ρ φ)} {r : Except Failure (Plan × Compilation ρ φ (Labelled υ))}
    (h : c.update e.watched o w = (r, w')) : w'.engine.emissions = w.engine.emissions := by
  have hkeeps := keeps_update c e o w
  rw [h] at hkeeps
  exact hkeeps

/-- A unit that is brought up to date keeps its settings. -/
theorem settings_of_update {c c' : Compilation ρ φ (Labelled υ)} {o : BuildOptions} {plan : Plan}
    {w w' : World (Ledger σ ρ φ)} (h : c.update e.watched o w = (.ok (plan, c'), w')) :
    c'.unit.settings = c.unit.settings := by
  obtain ⟨fresh, w₁, w₂, -, -, happly⟩ := Compilation.update_eq_ok h
  obtain ⟨c'', w'', happly', hsettings, -⟩ := apply_watched c e plan fresh w₂
  rw [happly] at happly'
  obtain rfl := Except.ok.inj (Prod.mk.inj happly').1
  exact hsettings

end Engine

/-! ### Emissions -/

/-- An outcome that comes from an emission. -/
structure Emission.LedTo (em : Emission) (o : BuildOptions) (out : Outcome σ ρ φ υ) : Prop where
  /-- There is a result only if the engine put something out. -/
  answered : ∀ result, out.result = .ok result → ∃ output, em.outcome = .ok output ∧
    result.succeeded = (BuildResult.ofDiagnostics output.succeeded output.diagnostics).succeeded
  /-- Bytes are kept only of a success. -/
  kept : ∀ k, out.state.kept = some k → ∃ output result, em.outcome = .ok output ∧
    out.result = .ok result ∧ result.succeeded = true ∧ k.binary = output.binary ∧
    k.mode = o.debugSymbols

/-- **Emitting a unit** is one emission, and the outcome comes from it. -/
theorem OutputState.emitUnit_emits (t : Toolchain σ ρ φ υ) (o : BuildOptions)
    (unit : Labelled υ) (report : Report) (s : OutputState ρ φ (Labelled υ))
    (w : World (Ledger σ ρ φ)) :
    ∃ em : Emission, em.settings = unit.settings ∧
      em.LedTo o (emitUnit t.watched o unit report s w) ∧
      (emitUnit t.watched o unit report s w).world.engine.emissions =
        w.engine.emissions ++ [em] := by
  rcases hengine : t.engine.emit unit.unit o.debugSymbols.emitFormat? ⟨w.host, w.engine.state⟩
    with ⟨outcome, v⟩
  -- The watched engine does what the engine does, and records it.
  have hwatched : t.watched.engine.emit unit o.debugSymbols.emitFormat? w =
      (outcome, ⟨v.host, ⟨v.engine, w.engine.calls ++
        [.emit ⟨unit.settings, o.debugSymbols.emitFormat?, outcome⟩]⟩⟩) := by
    simp only [Toolchain.watched, Engine.watched, Engine.watchTask, hengine]
  refine ⟨⟨unit.settings, o.debugSymbols.emitFormat?, outcome⟩, rfl, ?_⟩
  have hrecord := Ledger.emissions_record w.engine v.engine
    (.emit ⟨unit.settings, o.debugSymbols.emitFormat?, outcome⟩)
  cases outcome with
  | error e =>
      have hemit := emit_eq_of_error hwatched
      cases e with
      | error cause =>
          simp only [emitUnit, hemit]
          refine ⟨⟨?_, ?_⟩, hrecord⟩ <;> simp
      | crash =>
          simp only [emitUnit, hemit]
          refine ⟨⟨?_, ?_⟩, hrecord⟩ <;> simp
  | ok output =>
      obtain ⟨hkeeps, hyields⟩ := emit_of_ok hwatched
      rcases hemit : emit t.watched unit o w with ⟨emitted, w'⟩
      rw [hemit] at hkeeps hyields
      have hemissions : w'.engine.emissions = w.engine.emissions ++
          [⟨unit.settings, o.debugSymbols.emitFormat?, .ok output⟩] := by
        rw [hkeeps]
        exact hrecord
      rcases emitted with (cause | _) | e
      · simp only [emitUnit, hemit]
        refine ⟨⟨?_, ?_⟩, hemissions⟩ <;> simp
      · simp only [emitUnit, hemit]
        refine ⟨⟨?_, ?_⟩, hemissions⟩ <;> simp
      · have hof := hyields e w' rfl
        simp only [emitUnit, hemit]
        refine ⟨⟨?_, ?_⟩, hemissions⟩
        · rintro result hresult
          obtain rfl := Except.ok.inj hresult
          exact ⟨output, rfl, hof.succeeded⟩
        · intro k hk
          obtain ⟨hs, hbinary, hmode⟩ := hof.kept k hk
          exact ⟨output, e.result, rfl, rfl, hs, hbinary, hmode⟩

end IncrementalBuild
