import IncrementalBuild.Proofs.Delivery
/-!
# Symbols and their binary

Symbols are kept with the binary of one emission, and whatever a build keeps stands beside its
binary afterwards. But the symbol path may hold a file from before: a converter that ends with a
code and writes nothing lets it pass for its own, and a build that has no symbols to write leaves
it alone. Everything else at the symbol path, and all other symbols that are kept, were produced by
the emission that the binary is from.

## Main definitions

* `Turn.Produces` — the symbols that a turn produces with its emission.
* `Turn.Begins` — a turn begins to write on a host.
* `SymbolsBeside` — how the symbols that are delivered stand to their binary.

## Main results

* `Run.symbols_beside` — how symbols stand to their binary after a build that succeeded.
* `Leftover.symbols_of_earlier_emission` — a run that keeps symbols of an earlier emission.
-/

namespace IncrementalBuild

variable {σ ρ φ υ : Type} {t : Toolchain σ ρ φ υ} {turns later : List (Turn σ ρ φ υ)}
  {s : OutputState ρ φ υ} {u origin : Turn σ ρ φ υ} {output : EmitOutput} {h h' : Host}
  {k : KeptOutput} {p : Path} {b : Bytes}

namespace Turn

/-- A turn, emitting an output and beginning to write on a host, produces symbols. -/
def Produces (t : Toolchain σ ρ φ υ) (u : Turn σ ρ φ υ) (output : EmitOutput) (h : Host)
    (b : Bytes) : Prop :=
  ∃ h₁, publish u.options.outputPath output.binary h = (.ok (), h₁) ∧
    SymbolsProduced t.converter u.options output.symbols h₁ b

/-- A turn begins to write what it delivers on a host. -/
def Begins (t : Toolchain σ ρ φ υ) (u : Turn σ ρ φ υ) (h : Host) : Prop :=
  (∃ output k, u.Makes t output h k) ∨ ∃ k, u.Rewrites t k h

end Turn

/-- How the symbols that a turn delivers stand to their binary, which `origin` has emitted as part
of `output`, beginning to write on `h`. -/
structure SymbolsBeside (t : Toolchain σ ρ φ υ) (u origin : Turn σ ρ φ υ) (output : EmitOutput)
    (h : Host) (k : KeptOutput) (p : Path) : Prop where
  /-- Symbols that are kept are those at the symbol path. -/
  shown : ∀ b, k.symbols = some b → (u.outcome t).world.host.Shows p b
  /-- They were produced with the binary, or the converter took them over from before. -/
  kept : ∀ b, k.symbols = some b →
    origin.Produces t output h b ∨ k.mode = .converted ∧ h.Holds p b
  /-- What is there when none are kept was produced with the binary, or stood there when the turn
  began to write; or it is the binary itself. -/
  unkept : k.symbols = none → ∀ b, (u.outcome t).world.host.Shows p b →
    origin.Produces t output h b ∨ (∃ h', u.Begins t h' ∧ h'.Holds p b) ∨
      p = u.options.outputPath ∧ b = output.binary
  /-- After a conversion that failed none are there, if no access fails for a reason of its own. -/
  failed : origin = u → u.world.host.Steady → output.symbols ≠ none → k.symbols = none →
    ∀ b, ¬ (u.outcome t).world.host.Shows p b

/-! ### Paths of symbols -/

namespace BuildOptions

variable {o a : BuildOptions}

/-- Requests with one identity have one output. -/
theorem outputPath_eq (hsame : a.sameIdentity o = true) : a.outputPath = o.outputPath := by
  simp only [sameIdentity, Bool.and_eq_true, beq_iff_eq] at hsame
  obtain ⟨⟨⟨⟨hdirectory, -⟩, houtput⟩, -⟩, -⟩ := hsame
  rw [outputPath, outputPath, resolve, resolve, workDir, workDir, hdirectory, houtput]

/-- A symbol path other than that of the binary is clear of it. -/
theorem symbolPath_clearOf (hp : o.symbolPath? = some p) (hname : o.outputPath.HasName)
    (hne : p ≠ o.outputPath) : p.ClearOf o.outputPath := by
  rw [symbolPath?] at hp
  cases hmode : o.debugSymbols <;> rw [hmode] at hp
  case none => exact absurd hp (by simp [SymbolMode.symbolPath?])
  case native =>
    obtain rfl := Option.some.inj hp
    exact hname.native_clearOf hne
  case converted | portable =>
    obtain rfl := Option.some.inj hp
    exact hname.portable_clearOf

end BuildOptions

/-! ### What a turn makes -/

namespace Turn.Makes

variable (hmakes : u.Makes t output h k) (hplans : t.converter.PlansNothing) (hc : h.Calm)
include hmakes hplans hc

/-- Symbols that a turn has made and keeps were produced by it, or taken over from before. -/
theorem of_kept (hb : k.symbols = some b) : u.Produces t output h b ∨
    u.options.debugSymbols = .converted ∧
      h.Holds (portableSymbolPath u.options.outputPath) b := by
  obtain ⟨h₁, hpublish, hsymbols⟩ := hmakes.written
  obtain ⟨htouches, -, hname⟩ := publish_eq_ok hc hpublish
  rw [hb] at hsymbols
  rcases hsymbols.of_kept (htouches.later.calm hc) hplans hname with hproduced | ⟨hmode, hholds⟩
  · exact .inl ⟨h₁, hpublish, hproduced⟩
  · exact .inr ⟨hmode, (htouches.holds_iff (Files.place_not_mem hname.portable_clearOf)).mp hholds⟩

/-- What stands at the symbol path when a turn has made symbols and keeps none. -/
theorem of_shown (hp : u.options.symbolPath? = some p) (hnone : k.symbols = none)
    (hshows : (u.outcome t).world.host.Shows p b) :
    u.Produces t output h b ∨ h.Holds p b ∨ p = u.options.outputPath ∧ b = output.binary := by
  obtain ⟨h₁, hpublish, hsymbols⟩ := hmakes.written
  obtain ⟨htouches, hbinary, hname⟩ := publish_eq_ok hc hpublish
  rw [hnone] at hsymbols
  rcases hsymbols.of_shown (htouches.later.calm hc) hplans hname hp hshows with
    hproduced | hholds
  · exact .inl ⟨h₁, hpublish, hproduced⟩
  · by_cases hne : p = u.options.outputPath
    · subst hne
      exact .inr (.inr ⟨rfl, hholds.unique hbinary.holds⟩)
    · have hclear := BuildOptions.symbolPath_clearOf hp hname hne
      exact .inr (.inl ((htouches.holds_iff (Files.place_not_mem hclear)).mp hholds))

/-- A turn whose conversion failed leaves no symbols. -/
theorem not_shows (hsteady : h.Steady) (hp : u.options.symbolPath? = some p)
    (hemitted : output.symbols ≠ none) (hnone : k.symbols = none) :
    ¬ (u.outcome t).world.host.Shows p b := by
  obtain ⟨h₁, hpublish, hsymbols⟩ := hmakes.written
  obtain ⟨htouches, -, hname⟩ := publish_eq_ok hc hpublish
  rw [hnone] at hsymbols
  exact hsymbols.not_shows (htouches.later.calm hc) (htouches.later.steady hsteady) hplans hname
    hemitted hp

end Turn.Makes

/-- What stands at the symbol path when kept bytes without symbols were written again. -/
theorem KeptOutput.of_shown {o : BuildOptions} (hwrite : k.write o h = (.ok (), h')) (hc : h.Calm)
    (hp : o.symbolPath? = some p) (hnone : k.symbols = none) (hshows : h'.Shows p b) :
    h.Holds p b ∨ p = o.outputPath ∧ b = k.binary := by
  obtain ⟨h₁, hpublish, ⟨p', b', -, hb, -⟩ | ⟨-, rfl⟩⟩ := write_eq_ok hwrite
  · exact absurd (hnone.symm.trans hb) (by simp)
  · obtain ⟨htouches, hbinary, hname⟩ := publish_eq_ok hc hpublish
    by_cases hne : p = o.outputPath
    · subst hne
      exact .inr ⟨rfl, hshows.unique hbinary⟩
    · have hclear := BuildOptions.symbolPath_clearOf hp hname hne
      exact .inl ((htouches.holds_iff (Files.place_not_mem hclear)).mp hshows.holds)

/-! ### What a run delivers -/

/-- What is delivered goes to the output that it was emitted for. -/
theorem LastMade.outputPath_eq
    (hlast : LastMade t (u :: turns) (u.outcome t).state origin later output h k)
    (hdelivers : u.Delivers t origin k) : origin.options.outputPath = u.options.outputPath := by
  rcases hdelivers with rfl | ⟨h', hrewrites⟩
  · rfl
  · obtain ⟨current, hcurrent, hsame⟩ := hlast.identity
    obtain rfl := Option.some.inj (hrewrites.options.symm.trans hcurrent)
    exact BuildOptions.outputPath_eq hsame

/-- **Symbols.** After a build that succeeds, symbols that are kept are those beside the binary.
They were produced by the emission that the binary is from, unless a converter took them over from
before; and what is there when none are kept was produced by it too, or stood there before. -/
theorem Run.symbols_beside {engine : σ} (run : Run t turns s engine) (hstate : u.state = s)
    (hworld : u.world.engine = engine) (hengine : t.engine.PlansNothing)
    (hplans : t.converter.PlansNothing) (hc : ∀ v ∈ u :: turns, v.world.host.Calm)
    {r : BuildResult} (hr : (u.outcome t).result = .ok r) (hsucceeded : r.succeeded = true)
    (hp : u.options.symbolPath? = some p) :
    ∃ origin later output h k,
      LastMade t (u :: turns) (u.outcome t).state origin later output h k ∧
        SymbolsBeside t u origin output h k p := by
  obtain ⟨origin, later, output, h, k, hlast, hdelivers⟩ :=
    run.lastMade_of_success hstate hworld hr hsucceeded
  have hcu := hc u List.mem_cons_self
  have hch : h.Calm := by
    obtain ⟨earlier, hturns⟩ := hlast.turn
    have hmem : origin ∈ u :: turns := by
      rw [hturns]
      exact List.mem_append_right _ List.mem_cons_self
    exact (hlast.makes.precedes hengine).calm (hc origin hmem)
  refine ⟨origin, later, output, h, k, hlast, ?_, ?_, ?_, ?_⟩
  · exact fun b hb => hlast.shows_symbols hdelivers hengine hplans hcu hp hb
  · intro b hb
    rcases hlast.makes.of_kept hplans hch hb with hproduced | ⟨hmode, hholds⟩
    · exact .inl hproduced
    · have hkmode := hlast.makes.mode.trans hmode
      have hpath : p = portableSymbolPath u.options.outputPath := by
        rw [BuildOptions.symbolPath?, ← hlast.mode_eq hdelivers, hkmode] at hp
        exact (Option.some.inj hp).symm
      rw [hlast.outputPath_eq hdelivers, ← hpath] at hholds
      exact .inr ⟨hkmode, hholds⟩
  · intro hnone b hshows
    rcases hdelivers with rfl | ⟨h', hrewrites⟩
    · rcases hlast.makes.of_shown hplans hch hp hnone hshows with hproduced | hholds | hbinary
      · exact .inl hproduced
      · exact .inr (.inl ⟨h, .inl ⟨output, k, hlast.makes⟩, hholds⟩)
      · exact .inr (.inr hbinary)
    · have hc' := (hrewrites.precedes hengine).calm hcu
      rcases KeptOutput.of_shown hrewrites.written hc' hp hnone hshows with
        hholds | ⟨hpath, hbinary⟩
      · exact .inr (.inl ⟨h', .inr ⟨k, hrewrites⟩, hholds⟩)
      · exact .inr (.inr ⟨hpath, hbinary.trans hlast.makes.binary⟩)
  · rintro rfl hsteady hemitted hnone b
    have hsteady' := (hlast.makes.precedes hengine).steady hsteady
    exact hlast.makes.not_shows hplans hch hsteady' hp hemitted hnone

/-! ### A converter that does nothing -/

namespace Leftover

open Recording

/-- A request for an output with symbols. -/
def request (mode : SymbolMode) : BuildOptions :=
  { workDirectory := "/", assemblyName := "Game", output := "Game.dll", debugSymbols := mode }

/-- The first turn has the compiler write portable symbols. -/
def first : Turn State Reference Source RecordedUnit := ⟨request .portable, {}, ⟨{}, {}⟩⟩

/-- The second turn has symbols converted, by a converter that only returns a code. -/
def second : Turn State Reference Source RecordedUnit :=
  first.follow toolchain (request .converted) (first.outcome toolchain).world.host

/-- The first turn is a run. -/
theorem run : Run toolchain [first] (first.outcome toolchain).state
    (first.outcome toolchain).world.engine :=
  Run.first toolchain rfl

/-- The two turns are a run. -/
theorem run_second : Run toolchain [second, first] (second.outcome toolchain).state
    (second.outcome toolchain).world.engine := by
  unfold second
  exact run.follow _ _

/-- The second turn meets what the first left. -/
theorem second_state : second.state = (first.outcome toolchain).state := by
  rw [second, Turn.follow_state]

/-- The second turn meets the engine that the first left. -/
theorem second_engine : second.world.engine = (first.outcome toolchain).world.engine := by
  rw [second, Turn.follow_engine]

/-- Nobody else is on the host, and its files have one name each. -/
theorem calm : ∀ v ∈ [second, first], v.world.host.Calm := by
  intro v hv
  simp only [List.mem_cons, List.not_mem_nil, or_false] at hv
  rcases hv with rfl | rfl
  · exact Host.calm_of_quiet (by decide +kernel) (by decide +kernel)
  · exact Host.calm_of_quiet rfl rfl

/-- The second turn succeeds. -/
theorem second_result : (second.outcome toolchain).result = .ok .success := by decide +kernel

/-- The symbols of the second turn stand beside its binary, but they may be from before. -/
theorem second_symbols_beside :
    ∃ origin later output h k,
      LastMade toolchain [second, first] (second.outcome toolchain).state origin later output h k ∧
        SymbolsBeside toolchain second origin output h k ⟨"/Game.dll.mdb"⟩ := by
  have hp : second.options.symbolPath? = some ⟨"/Game.dll.mdb"⟩ := by decide +kernel
  exact Run.symbols_beside run second_state second_engine plansNothing
    (Converter.plansNothing_exiting 0) calm second_result (by decide) hp

/-- The second turn keeps, and leaves beside its own binary, the symbols that the first emitted. -/
theorem symbols_of_earlier_emission :
    Run toolchain [second, first] (second.outcome toolchain).state
        (second.outcome toolchain).world.engine ∧
      second = first.follow toolchain (request .converted) (first.outcome toolchain).world.host ∧
      (second.outcome toolchain).result = .ok .success ∧
      (first.outcome toolchain).state.kept =
        some ⟨Bytes.ofString "emit#1|Game||", some (Bytes.ofString "portable#1"), .portable⟩ ∧
      (second.outcome toolchain).state.kept =
        some ⟨Bytes.ofString "emit#2|Game||", some (Bytes.ofString "portable#1"), .converted⟩ ∧
      (second.outcome toolchain).world.host.Shows ⟨"/Game.dll"⟩
        (Bytes.ofString "emit#2|Game||") ∧
      (second.outcome toolchain).world.host.Shows ⟨"/Game.dll.mdb"⟩
        (Bytes.ofString "portable#1") := by
  refine ⟨run_second, by rw [second], second_result, ?_, ?_, ?_, ?_⟩
  · decide +kernel
  · decide +kernel
  · rw [Host.Shows]
    decide +kernel
  · rw [Host.Shows]
    decide +kernel

end Leftover
end IncrementalBuild
