import IncrementalBuild.Proofs.Engine.Transparent
import IncrementalBuild.Proofs.Lineage
/-!
# When kept bytes are reused

The bytes that a run keeps are those of its last emission, which succeeded. A request is answered
with them only if it asks for what was emitted: the same identity, the same symbols, and the same
sources with the same times. References are compared with what the request before committed, so
that their times can drift away from those of the emission while bytes are reused under the policy
that does not look at them.

## Main results

* `Lineage.reused` — what is known when kept bytes are written again.
* `Run.kept_from_last_emission` — where kept bytes come from, and what every reuse rests on.
* `Run.whenNoChange_reuse` — what the strictest policy compares with what.
* `Touched.reused_with_other_reference` — two requests that take a touched reference past it.
-/

namespace IncrementalBuild

variable {σ ρ φ υ : Type} {t : Toolchain σ ρ φ υ}

/-- **Reuse.** A turn that writes kept bytes again has a policy that lets it, and finds the sources
and the paths of references as the emission found them; under the strictest policy it also finds
the references as the request before did. -/
theorem Lineage.reused {turns : List (Turn (Ledger σ ρ φ) ρ φ (Labelled υ))}
    {s : OutputState ρ φ (Labelled υ)} {ledger : Ledger σ ρ φ} (h : Lineage t turns s ledger)
    (u : Turn (Ledger σ ρ φ) ρ φ (Labelled υ)) (hu : u.state = s) (hreused : u.Reused t.watched) :
    u.options.outputReuse ≠ .none ∧ ∃ k origin later em, s.kept = some k ∧
      k.mode = u.options.debugSymbols ∧ KeptFrom t turns s ledger origin later em k ∧
      DriftsBy t s origin later ∧
      (∃ committed, (origin.outcome t.watched).state.sources? = some committed ∧
        committed.Agrees u.sources) ∧
      (∃ committed, (origin.outcome t.watched).state.references? = some committed ∧
        committed.SamePaths u.references) ∧
      ∃ previous, s.references? = some previous ∧
        (u.options.outputReuse = .whenNoChange → previous.Agrees u.references) := by
  obtain ⟨c, c', plan, w', k, hold, hupdate, hreusable⟩ := Turn.reused_iff.mp hreused
  rw [hu] at hold hreusable
  obtain ⟨-, hkept, hmode⟩ := OutputState.reusable?_eq_some hreusable
  obtain ⟨references, sources, hunchanged⟩ := h.unchanged hold hupdate hreusable
  obtain ⟨hrcaptured, hscaptured⟩ := Compilation.snapshots_of_update hupdate
  have hagrees : sources.Agrees u.sources := by
    rw [Turn.sources, ← hscaptured]
    exact hunchanged.sources_agree
  have hpaths : references.SamePaths u.references := by
    rw [Turn.references, ← hrcaptured]
    exact hunchanged.same_references
  obtain ⟨origin, later, em, hfrom, hdrift, -⟩ := h.kept k hkept
  obtain ⟨committed, current, hcommittedAt, hcurrent, hsame⟩ := hfrom.sources
  obtain ⟨rcommitted, rcurrent, hrcommittedAt, hrcurrent, hrsame⟩ := hfrom.references
  obtain rfl := Option.some.inj (hcurrent.symm.trans hunchanged.sources_eq)
  obtain rfl := Option.some.inj (hrcurrent.symm.trans hunchanged.references_eq)
  refine ⟨hunchanged.policy, k, origin, later, em, hkept, hmode, hfrom, hdrift,
    ⟨committed, hcommittedAt, hsame.trans hagrees⟩,
    ⟨rcommitted, hrcommittedAt, hrsame.trans hpaths⟩, _, hunchanged.references_eq,
    fun hpolicy => ?_⟩
  rw [Turn.references, ← hrcaptured]
  exact hunchanged.references_agree hpolicy

/-- **Kept bytes** are those of the last emission of the run, which succeeded under the identity
of the latest request; the committed sources, and the paths of the committed references, are still
those that it was made from. So bytes are reused only under a policy that lets them be, for the
symbols they were emitted with, and for the sources they were emitted from. -/
theorem Run.kept_from_last_emission {turns : List (Turn σ ρ φ υ)} {s : OutputState ρ φ υ}
    {engine : σ} (run : Run t turns s engine) :
    ∃ watched ws ledger, Run.WatchedAs t turns s engine watched ws ledger ∧
      (∀ k, s.kept = some k →
        ∃ origin later em, KeptFrom t watched ws ledger origin later em k) ∧
      ∀ u : Turn σ ρ φ υ, u.state = s → u.world.engine = engine → u.Reused t →
        u.options.outputReuse ≠ .none ∧ ∃ k origin later em committed, s.kept = some k ∧
          k.mode = u.options.debugSymbols ∧ KeptFrom t watched ws ledger origin later em k ∧
          (origin.outcome t.watched).state.sources? = some committed ∧
          committed.Agrees u.sources := by
  obtain ⟨watched, ws, ledger, hwatched⟩ := run.exists_watchedAs
  have hlineage := hwatched.run.lineage
  obtain rfl := hwatched.state_eq
  obtain rfl := hwatched.engine_eq
  refine ⟨watched, ws, ledger, hwatched, fun k hk => ?_, ?_⟩
  · obtain ⟨origin, later, em, hfrom, -⟩ := hlineage.kept k hk
    exact ⟨origin, later, em, hfrom⟩
  · rintro ⟨o, s, ⟨host, engine⟩⟩ rfl rfl hreused
    have hreused' : Turn.Reused t.watched ⟨o, ws, ⟨host, ledger⟩⟩ :=
      (Turn.reused_plain t _).mp hreused
    obtain ⟨hpolicy, k, origin, later, em, hkept, hmode, hfrom, -, ⟨committed, hcommitted, hagrees⟩,
      -⟩ := hlineage.reused ⟨o, ws, ⟨host, ledger⟩⟩ rfl hreused'
    exact ⟨hpolicy, k, origin, later, em, committed, hkept, hmode, hfrom, hcommitted, hagrees⟩

/-! ### A reference that is touched once -/

namespace Touched

open Recording

/-- A host with one reference, last modified at a time. -/
def host (time : Int) : Host := { files := { entries := [(["r"], .file [] ⟨time⟩ false)] } }

/-- A request for an output with that reference. -/
def request (policy : ReusePolicy) : BuildOptions :=
  { workDirectory := "/", output := "out", references := ["r"], outputReuse := policy }

/-- The first turn emits. -/
def first : Turn State Reference Source RecordedUnit :=
  ⟨request .whenNoSourceChange, {}, ⟨host 1, {}⟩⟩

/-- By the second turn the reference was touched. -/
def second : Turn State Reference Source RecordedUnit :=
  first.follow toolchain (request .whenNoSourceChange) (host 2)

/-- The third turn asks for the strictest policy. -/
def third : Turn State Reference Source RecordedUnit :=
  second.follow toolchain (request .whenNoChange) (host 2)

/-- The first two turns are a run. -/
theorem run : Run toolchain [second, first] (second.outcome toolchain).state
    (second.outcome toolchain).world.engine := by
  have h : Run toolchain [first] (first.outcome toolchain).state
      (first.outcome toolchain).world.engine := Run.first toolchain rfl
  unfold second
  exact h.follow _ _

/-- The third turn meets what the second left. -/
theorem third_state : third.state = (second.outcome toolchain).state := by
  rw [third, Turn.follow_state]

/-- The third turn meets the engine that the second left. -/
theorem third_engine : third.world.engine = (second.outcome toolchain).world.engine := by
  rw [third, Turn.follow_engine]

/-- The third turn is answered with kept bytes. -/
theorem third_reused : third.Reused toolchain := by decide +kernel

/-- The bytes that answer the third turn were emitted by a turn before it, from the sources that it
finds. -/
theorem kept_origin :
    third.Reused toolchain ∧ ∃ watched ws ledger,
      Run.WatchedAs toolchain [second, first] (second.outcome toolchain).state
        (second.outcome toolchain).world.engine watched ws ledger ∧
      ∃ k origin later em committed, (second.outcome toolchain).state.kept = some k ∧
        k.mode = third.options.debugSymbols ∧
        KeptFrom toolchain watched ws ledger origin later em k ∧
        (origin.outcome toolchain.watched).state.sources? = some committed ∧
        committed.Agrees third.sources := by
  obtain ⟨watched, ws, ledger, hwatched, -, hreuse⟩ := Run.kept_from_last_emission run
  obtain ⟨-, k, origin, later, em, committed, hkept, hmode, hfrom, hcommitted, hagrees⟩ :=
    hreuse third third_state third_engine third_reused
  exact ⟨third_reused, watched, ws, ledger, hwatched, k, origin, later, em, committed, hkept, hmode,
    hfrom, hcommitted, hagrees⟩

end Touched

/-! ### The strictest policy -/

/-- **The strictest policy.** Bytes that are reused under it were emitted from the sources that the
request finds, with their times, and from references with the same paths; the references have the
times that the request before found. A reference whose time is not that of the emission was passed
over since, by a reuse under the other policy. -/
theorem Run.whenNoChange_reuse {turns : List (Turn σ ρ φ υ)} {s : OutputState ρ φ υ}
    {engine : σ} (run : Run t turns s engine) :
    ∃ watched ws ledger, Run.WatchedAs t turns s engine watched ws ledger ∧
      ∀ u : Turn σ ρ φ υ, u.state = s → u.world.engine = engine →
        u.options.outputReuse = .whenNoChange → u.Reused t →
        ∃ k origin later em sources references previous, s.kept = some k ∧
          KeptFrom t watched ws ledger origin later em k ∧
          (origin.outcome t.watched).state.sources? = some sources ∧ sources.Agrees u.sources ∧
          (origin.outcome t.watched).state.references? = some references ∧
          references.SamePaths u.references ∧
          s.references? = some previous ∧ previous.Agrees u.references ∧
          ∀ p, references.time? p ≠ u.references.time? p →
            ∃ v ∈ later, v.PassedOver t.watched p := by
  obtain ⟨watched, ws, ledger, hwatched⟩ := run.exists_watchedAs
  have hlineage := hwatched.run.lineage
  obtain rfl := hwatched.state_eq
  obtain rfl := hwatched.engine_eq
  refine ⟨watched, ws, ledger, hwatched, ?_⟩
  rintro ⟨o, s, ⟨host, engine⟩⟩ rfl rfl hpolicy hreused
  have hreused' : Turn.Reused t.watched ⟨o, ws, ⟨host, ledger⟩⟩ :=
    (Turn.reused_plain t _).mp hreused
  obtain ⟨-, k, origin, later, em, hkept, -, hfrom, hdrift, ⟨sources, hsources, hagrees⟩,
    ⟨references, hreferences, hpaths⟩, previous, hprevious, hnochange⟩ :=
    hlineage.reused ⟨o, ws, ⟨host, ledger⟩⟩ rfl hreused'
  have hsame := hnochange hpolicy
  have hplain : ws.plain.references? = some previous := by
    rw [← hprevious, OutputState.references?, OutputState.references?, OutputState.plain]
    cases ws.compilation <;> rfl
  refine ⟨k, origin, later, em, sources, references, previous, hkept, hfrom, hsources, hagrees,
    hreferences, hpaths, hplain, hsame, fun p hne => ?_⟩
  refine hdrift references previous p hreferences hprevious fun heq => hne ?_
  rw [heq]
  exact hsame p

namespace Touched

open Recording

/-- The bytes that answer the third turn were emitted before the reference was touched, and a turn
in between passed over it. -/
theorem reference_passed_over :
    third.Reused toolchain ∧ ∃ watched ws ledger,
      Run.WatchedAs toolchain [second, first] (second.outcome toolchain).state
        (second.outcome toolchain).world.engine watched ws ledger ∧
      ∃ k origin later em references previous, (second.outcome toolchain).state.kept = some k ∧
        KeptFrom toolchain watched ws ledger origin later em k ∧
        (origin.outcome toolchain.watched).state.references? = some references ∧
        (second.outcome toolchain).state.references? = some previous ∧
        previous.Agrees third.references ∧
        ∀ p, references.time? p ≠ third.references.time? p →
          ∃ v ∈ later, v.PassedOver toolchain.watched p := by
  obtain ⟨watched, ws, ledger, hwatched, hreuse⟩ := Run.whenNoChange_reuse run
  obtain ⟨k, origin, later, em, -, references, previous, hkept, hfrom, -, -, hreferences, -,
    hprevious, hagrees, hpassed⟩ := hreuse third third_state third_engine rfl third_reused
  exact ⟨third_reused, watched, ws, ledger, hwatched, k, origin, later, em, references, previous,
    hkept, hfrom, hreferences, hprevious, hagrees, hpassed⟩

/-- The third turn writes the bytes of the first under the strictest policy, although the reference
that it finds is not the one they were emitted with. -/
theorem reused_with_other_reference :
    Run toolchain [second, first] (second.outcome toolchain).state
        (second.outcome toolchain).world.engine ∧
      third = second.follow toolchain (request .whenNoChange) (host 2) ∧
      third.Reused toolchain ∧ second.Reused toolchain ∧ ¬ first.Reused toolchain ∧
      (second.outcome toolchain).state.kept = (first.outcome toolchain).state.kept ∧
      (first.outcome toolchain).state.references?.bind (·.time? ⟨"r"⟩) = some ⟨1⟩ ∧
      third.references.time? ⟨"r"⟩ = some ⟨2⟩ := by
  refine ⟨run, by rw [third], third_reused, ?_, ?_, ?_, ?_, ?_⟩
  all_goals decide +kernel

end Touched
end IncrementalBuild
