import IncrementalBuild.Proofs.Engine.Transparent
import IncrementalBuild.Proofs.Lineage
/-!
# The settings a binary is compiled with

Settings reach the engine only when a compilation is founded. Every binary that a request gets is
compiled with the settings of the request that founded its compilation. Of these the identity
fixes the assembly name, the defines and the suppressed codes; whether unsafe code is allowed and
the extra flags it does not fix, so that they are those of the founder and not of the request.

## Main definitions

* `Delivers` — the emission whose binary a turn gives out.

## Main results

* `Run.settings_of_founder` — the settings of every delivered binary, and when they are those that
  the request asks for.
* `Flagged.delivered_without_flag` — a request whose flag does not reach the engine.
-/

namespace IncrementalBuild

variable {σ ρ φ υ : Type} {t : Toolchain σ ρ φ υ}

/-- The emission whose binary a turn gives out: its own, or the last one before it, the bytes of
which were kept. -/
structure Delivers (t : Toolchain σ ρ φ υ) (u : Turn (Ledger σ ρ φ) ρ φ (Labelled υ))
    (em : Emission) : Prop where
  /-- After a turn that does not reuse bytes, the emission is the turn's own. -/
  emitted : ¬ u.Reused t.watched →
    (u.outcome t.watched).world.engine.emissions = u.world.engine.emissions ++ [em] ∧
      ∃ output, em.outcome = .ok output
  /-- A turn that reuses bytes emits nothing, and the bytes are those of the last emission. -/
  reused : u.Reused t.watched →
    (u.outcome t.watched).world.engine.emissions = u.world.engine.emissions ∧
      u.world.engine.emissions.getLast? = some em ∧
      ∃ k output, u.state.kept = some k ∧ em.outcome = .ok output ∧ k.binary = output.binary

/-- Under one identity, settings differ at most in unsafe code and in flags. -/
theorem BuildOptions.unitSettings_eq_iff {a b : BuildOptions} (h : a.sameIdentity b = true) :
    a.unitSettings = b.unitSettings ↔
      a.allowUnsafe = b.allowUnsafe ∧ a.extraFlags = b.extraFlags := by
  simp only [sameIdentity, Bool.and_eq_true, beq_iff_eq] at h
  obtain ⟨⟨⟨⟨-, hname⟩, -⟩, hdefines⟩, hsuppressed⟩ := h
  simp [unitSettings, hname, hdefines, hsuppressed]

/-- An emitted turn delivers its own emission. -/
theorem Delivers.of_emitUnit {u : Turn (Ledger σ ρ φ) ρ φ (Labelled υ)} {unit : Labelled υ}
    {report : Report} {s : OutputState ρ φ (Labelled υ)} {w : World (Ledger σ ρ φ)}
    {result : BuildResult}
    (houtcome : u.outcome t.watched = OutputState.emitUnit t.watched u.options unit report s w)
    (hw : w.engine.emissions = u.world.engine.emissions)
    (hresult : (u.outcome t.watched).result = .ok result) (hreused : ¬ u.Reused t.watched) :
    ∃ em, Delivers t u em ∧ em.settings = unit.settings := by
  obtain ⟨em, hsettings, hled, hemissions⟩ :=
    OutputState.emitUnit_emits t u.options unit report s w
  rw [← houtcome] at hled hemissions
  obtain ⟨output, houtput, -⟩ := hled.answered result hresult
  refine ⟨em, ⟨fun _ => ⟨?_, output, houtput⟩, fun h => absurd h hreused⟩, hsettings⟩
  rw [hemissions, hw]

/-- A turn that ended with a result delivers an emission of a unit with the settings of the
compilation that it leaves. -/
theorem Lineage.delivers {turns : List (Turn (Ledger σ ρ φ) ρ φ (Labelled υ))}
    {s : OutputState ρ φ (Labelled υ)} {ledger : Ledger σ ρ φ} (h : Lineage t turns s ledger)
    (o : BuildOptions) (host : Host) {result : BuildResult}
    (hresult : (s.build t.watched o ⟨host, ledger⟩).result = .ok result) :
    ∃ em c, Delivers t ⟨o, s, ⟨host, ledger⟩⟩ em ∧
      (s.build t.watched o ⟨host, ledger⟩).state.options = some o ∧
      (s.build t.watched o ⟨host, ledger⟩).state.compilation = some c ∧
      em.settings = c.unit.settings := by
  have hcourse := OutputState.course_build t.watched o s ⟨host, ledger⟩
  set u : Turn (Ledger σ ρ φ) ρ φ (Labelled υ) := ⟨o, s, ⟨host, ledger⟩⟩ with hu
  have houtcome : u.outcome t.watched = s.build t.watched o ⟨host, ledger⟩ := rfl
  rw [← houtcome] at hcourse hresult ⊢
  generalize hout : u.outcome t.watched = out at hcourse
  cases hcourse with
  | unfounded => exact absurd (hresult.symm.trans (by rw [hout])) (by simp)
  | stuck => exact absurd (hresult.symm.trans (by rw [hout])) (by simp)
  | @founded c w' new create =>
      have hreused : ¬ u.Reused t.watched := by
        intro hreused
        obtain ⟨d, _, _, _, _, hold, -⟩ := Turn.reused_iff.mp hreused
        rw [hu, new] at hold
        exact absurd hold (by simp)
      obtain ⟨em, hdelivers, hsettings⟩ := Delivers.of_emitUnit hout
        (Engine.emissions_of_create create) hresult hreused
      obtain ⟨kept, after, hstate, -⟩ := OutputState.emitUnit_frame t.watched o c.unit
        { kind := .full, source := .emitted } (s.found o c) w'
      exact ⟨em, c, hdelivers, by rw [hstate]; rfl, by rw [hstate]; rfl, hsettings⟩
  | @emitted c c' plan w' old update changed =>
      have hreused : ¬ u.Reused t.watched := by
        intro hreused
        obtain ⟨d, d', plan', v, k, hold, hupdate, hk⟩ := Turn.reused_iff.mp hreused
        rw [hu, old] at hold
        obtain rfl := Option.some.inj hold
        rw [hu, update, Prod.mk.injEq] at hupdate
        obtain ⟨rfl, rfl⟩ := Prod.mk.inj (Except.ok.inj hupdate.1)
        rw [hu, changed] at hk
        exact absurd hk (by simp)
      obtain ⟨em, hdelivers, hsettings⟩ := Delivers.of_emitUnit hout
        (Engine.emissions_of_update update) hresult hreused
      obtain ⟨kept, after, hstate, -⟩ := OutputState.emitUnit_frame t.watched o c'.unit
        (plan.report .emitted) (s.advance o c') w'
      exact ⟨em, c', hdelivers, by rw [hstate]; rfl, by rw [hstate]; rfl, hsettings⟩
  | @reused c c' plan w' k old update unchanged =>
      have hreused : u.Reused t.watched :=
        Turn.reused_iff.mpr ⟨c, c', plan, w', k, old, update, unchanged⟩
      obtain ⟨-, hkept, -⟩ := OutputState.reusable?_eq_some unchanged
      obtain ⟨-, -, -, hc⟩ := OutputState.continued?_eq_some old
      obtain ⟨origin, later, em, hfrom, -, d, hd, hsettings⟩ := h.kept k hkept
      rw [hc] at hd
      obtain rfl := Option.some.inj hd
      obtain ⟨output, houtput, hbinary⟩ := hfrom.output
      obtain ⟨hstate, hengine⟩ := OutputState.reuse_frame o k (plan.report .reused)
        (s.advance o c') w'
      refine ⟨em, c', ⟨fun hnot => absurd hreused hnot, fun _ => ⟨?_, ?_, ?_⟩⟩,
        by rw [hstate]; rfl, by rw [hstate]; rfl, ?_⟩
      · rw [hout, hengine]
        exact Engine.emissions_of_update update
      · show ledger.emissions.getLast? = some em
        rw [hfrom.last, hfrom.emitted, List.getLast?_concat]
      · exact ⟨k, output, hkept, houtput, hbinary⟩
      · exact hsettings.trans (Engine.settings_of_update update).symm

/-- **Settings.** Every binary that a request gets is compiled with the settings of the request
that founded its compilation, which has the same identity. They are the settings that the request
asks for exactly when both agree on unsafe code and on extra flags. -/
theorem Run.settings_of_founder {turns : List (Turn σ ρ φ υ)} {s : OutputState ρ φ υ}
    {engine : σ} (run : Run t turns s engine) :
    ∃ watched ws ledger, Run.WatchedAs t turns s engine watched ws ledger ∧
      ∀ (o : BuildOptions) (host : Host) (result : BuildResult),
        (s.build t o ⟨host, engine⟩).result = .ok result →
        ∃ em founder c, Delivers t ⟨o, ws, ⟨host, ledger⟩⟩ em ∧
          FoundedBy t (⟨o, ws, ⟨host, ledger⟩⟩ :: watched)
            (ws.build t.watched o ⟨host, ledger⟩).state founder c ∧
          em.settings = founder.options.unitSettings ∧
          founder.options.sameIdentity o = true ∧
          (em.settings = o.unitSettings ↔
            founder.options.allowUnsafe = o.allowUnsafe ∧
              founder.options.extraFlags = o.extraFlags) := by
  obtain ⟨watched, ws, ledger, hwatched⟩ := run.exists_watchedAs
  have hlineage := hwatched.run.lineage
  obtain rfl := hwatched.state_eq
  obtain rfl := hwatched.engine_eq
  refine ⟨watched, ws, ledger, hwatched, fun o host result hresult => ?_⟩
  have hplain := OutputState.build_plain t o ws ⟨host, ledger⟩
  have hresult' : (ws.build t.watched o ⟨host, ledger⟩).result = .ok result := by
    rw [← hresult]
    exact (congrArg Outcome.result hplain).symm
  obtain ⟨em, c, hdelivers, hoptions, hc, hsettings⟩ := hlineage.delivers o host hresult'
  obtain ⟨-, founder, hfounder⟩ := (hlineage.step o host).founded c hc
  have hem : em.settings = founder.options.unitSettings := hsettings.trans hfounder.settings
  obtain ⟨current, hcurrent, hidentity⟩ := hfounder.identity
  rw [hoptions] at hcurrent
  obtain rfl := Option.some.inj hcurrent
  refine ⟨em, founder, c, hdelivers, hfounder, hem, hidentity, ?_⟩
  rw [hem]
  exact BuildOptions.unitSettings_eq_iff hidentity

/-! ### A flag that is added later -/

namespace Flagged

open Recording

/-- A request for an output without inputs, with flags. -/
def request (flags : List String) : BuildOptions :=
  { workDirectory := "/", output := "out", extraFlags := flags }

/-- The first turn founds the compilation, without a flag. -/
def first : Turn State Reference Source RecordedUnit := ⟨request [], {}, ⟨{}, {}⟩⟩

/-- The first turn with the engine watched. -/
def watchedFirst : Turn (Ledger State Reference Source) Reference Source (Labelled RecordedUnit) :=
  ⟨request [], {}, ⟨{}, ⟨{}, []⟩⟩⟩

/-- The second turn wants a flag. -/
def watchedSecond :
    Turn (Ledger State Reference Source) Reference Source (Labelled RecordedUnit) :=
  watchedFirst.follow toolchain.watched (request ["-optimize"]) {}

/-- The second request gets a binary that was compiled for the first one. -/
theorem second_has_founder :
    ∃ result watched ws ledger,
      ((first.outcome toolchain).state.build toolchain (request ["-optimize"])
        ⟨{}, (first.outcome toolchain).world.engine⟩).result = .ok result ∧
      Run.WatchedAs toolchain [first] (first.outcome toolchain).state
        (first.outcome toolchain).world.engine watched ws ledger ∧
      ∃ em founder c, Delivers toolchain ⟨request ["-optimize"], ws, ⟨{}, ledger⟩⟩ em ∧
        FoundedBy toolchain (⟨request ["-optimize"], ws, ⟨{}, ledger⟩⟩ :: watched)
          (ws.build toolchain.watched (request ["-optimize"]) ⟨{}, ledger⟩).state founder c ∧
        em.settings = founder.options.unitSettings ∧
        (em.settings = (request ["-optimize"]).unitSettings ↔
          founder.options.allowUnsafe = false ∧ founder.options.extraFlags = ["-optimize"]) := by
  have hok : ((first.outcome toolchain).state.build toolchain (request ["-optimize"])
      ⟨{}, (first.outcome toolchain).world.engine⟩).result.toOption.isSome = true := by
    decide +kernel
  obtain ⟨watched, ws, ledger, hwatched, hsettings⟩ :=
    Run.settings_of_founder (Run.first toolchain (u := first) rfl)
  revert hok
  generalize hbuild : (first.outcome toolchain).state.build toolchain (request ["-optimize"])
    ⟨{}, (first.outcome toolchain).world.engine⟩ = out
  intro hok
  rcases hresult : out.result with e | result
  · rw [hresult] at hok
    exact absurd hok (by simp [Except.toOption])
  · rw [← hbuild] at hresult
    obtain ⟨em, founder, c, hdelivers, hfounder, hem, -, hiff⟩ := hsettings _ _ result hresult
    exact ⟨result, watched, ws, ledger, rfl, hwatched, em, founder, c, hdelivers, hfounder, hem,
      hiff⟩

/-- The second request asks for a flag, succeeds, and its binary is compiled without the flag. -/
theorem delivered_without_flag :
    Run toolchain.watched [watchedFirst] (watchedFirst.outcome toolchain.watched).state
        (watchedFirst.outcome toolchain.watched).world.engine ∧
      watchedSecond =
        watchedFirst.follow toolchain.watched (request ["-optimize"]) {} ∧
      ¬ watchedSecond.Reused toolchain.watched ∧
      (watchedSecond.outcome toolchain.watched).result.toOption.map (·.succeeded) = some true ∧
      (watchedSecond.outcome toolchain.watched).world.engine.emissions.map (·.settings) =
        watchedSecond.world.engine.emissions.map (·.settings) ++ [(request []).unitSettings] ∧
      (request []).unitSettings ≠ (request ["-optimize"]).unitSettings := by
  refine ⟨Run.first toolchain.watched rfl, by rw [watchedSecond], ?_, ?_, ?_, ?_⟩
  all_goals decide +kernel

end Flagged
end IncrementalBuild
