import IncrementalBuild.Proofs.Emission
import IncrementalBuild.Proofs.Lineage
/-!
# What a successful build delivers

A build that succeeds either emits, and keeps what it emits, or writes again what the last emission
of the run has left. Either way the binary that is kept stands at the output path afterwards,
unless symbols in the compiler's own format were written over it.

## Main definitions

* `Turn.Reaches` — the unit that a turn emits, and the world in which it does.
* `Turn.Makes` — a turn that emits and keeps what it emits.
* `Turn.Rewrites` — a turn that writes kept bytes again.
* `LastMade` — the last emission of a run, and what is kept of it.

## Main results

* `Turn.makes_or_rewrites` — the two ways to succeed.
* `Run.lastMade` — what a run keeps was made by its last emission.
* `Run.output_shows_binary` — what stands at the output path after a build that succeeded.
-/

namespace IncrementalBuild

variable {σ ρ φ υ : Type} {t : Toolchain σ ρ φ υ} {u : Turn σ ρ φ υ}

/-! ### One turn -/

namespace Turn

/-- The unit that a turn emits, and the world in which it does. -/
inductive Reaches (t : Toolchain σ ρ φ υ) (u : Turn σ ρ φ υ) : υ → World σ → Prop
  /-- The unit of a new compilation. -/
  | founded {c : Compilation ρ φ υ} {w : World σ} (new : u.state.continued? u.options = none)
      (create : Compilation.create t.engine u.options u.world = (.ok c, w)) : Reaches t u c.unit w
  /-- The unit of a compilation that was brought up to date, when kept bytes cannot be reused. -/
  | updated {c c' : Compilation ρ φ υ} {plan : Plan} {w : World σ}
      (old : u.state.continued? u.options = some c)
      (update : c.update t.engine u.options u.world = (.ok (plan, c'), w))
      (changed : u.state.reusable? u.options plan.references plan.sources = none) :
      Reaches t u c'.unit w

/-- A turn that emits, beginning to write on a host, and keeps what it emits. -/
structure Makes (t : Toolchain σ ρ φ υ) (u : Turn σ ρ φ υ) (output : EmitOutput) (h : Host)
    (k : KeptOutput) : Prop where
  /-- The engine put the output out. -/
  emitted : ∃ unit w₀ w, u.Reaches t unit w₀ ∧ w.host = h ∧
    t.engine.emit unit u.options.debugSymbols.emitFormat? w₀ = (.ok output, w)
  /-- The binary was published, and then the symbols were written. -/
  written : ∃ h₁, publish u.options.outputPath output.binary h = (.ok (), h₁) ∧
    SymbolsWritten t.converter u.options output.symbols h₁ k.symbols (u.outcome t).world.host
  stored : (u.outcome t).state.kept = some k
  options : (u.outcome t).state.options = some u.options
  binary : k.binary = output.binary
  mode : k.mode = u.options.debugSymbols

/-- A turn that writes kept bytes again, beginning on a host. -/
structure Rewrites (t : Toolchain σ ρ φ υ) (u : Turn σ ρ φ υ) (k : KeptOutput) (h : Host) :
    Prop where
  /-- The compilation was brought up to date. -/
  updated : ∃ c c' plan w, u.state.continued? u.options = some c ∧ w.host = h ∧
    c.update t.engine u.options u.world = (.ok (plan, c'), w) ∧
    u.state.reusable? u.options plan.references plan.sources = some k
  written : k.write u.options h = (.ok (), (u.outcome t).world.host)
  stored : (u.outcome t).state.kept = some k
  options : (u.outcome t).state.options = some u.options

end Turn

/-- An emission that keeps something ends with a result, and keeps it of a success. -/
theorem OutputState.emitUnit_eq_ok {o : BuildOptions} {unit : υ} {report : Report}
    {s : OutputState ρ φ υ} {w : World σ} {k : KeptOutput}
    (hk : (emitUnit t o unit report s w).state.kept = some k) :
    ∃ e, emit t unit o w = (.ok e, (emitUnit t o unit report s w).world) ∧ e.kept = some k := by
  rw [emitUnit] at hk ⊢
  rcases hemit : emit t unit o w with ⟨(_ | e) | e, w'⟩ <;> rw [hemit] at hk
  · exact absurd hk (by simp)
  · exact absurd hk (by simp)
  · exact ⟨e, rfl, hk⟩

/-- An emission that succeeds keeps something. -/
theorem OutputState.exists_kept_of_emitUnit {o : BuildOptions} {unit : υ} {report : Report}
    {s : OutputState ρ φ υ} {w : World σ} {r : BuildResult}
    (hr : (emitUnit t o unit report s w).result = .ok r) (hsucceeded : r.succeeded = true) :
    ∃ k, (emitUnit t o unit report s w).state.kept = some k := by
  rw [emitUnit] at hr ⊢
  rcases hemit : emit t unit o w with ⟨(_ | e) | e, w'⟩ <;> rw [hemit] at hr
  · exact absurd hr (by simp)
  · exact absurd hr (by simp)
  · obtain ⟨output, w₀, h₁, symbols, -, -, -, hkept⟩ := emit_eq_ok hemit
    obtain rfl := Except.ok.inj hr
    rw [if_pos hsucceeded] at hkept
    exact ⟨_, hkept⟩

namespace Turn

/-- What a turn keeps of an emission it has made. -/
theorem makes_of_emitUnit {unit : υ} {report : Report} {s : OutputState ρ φ υ} {w : World σ}
    {k : KeptOutput} (hreaches : u.Reaches t unit w) (hoptions : s.options = some u.options)
    (houtcome : u.outcome t = OutputState.emitUnit t u.options unit report s w)
    (hk : (u.outcome t).state.kept = some k) : ∃ output h, u.Makes t output h k := by
  obtain ⟨kept, after, hframe, -⟩ := OutputState.emitUnit_frame t u.options unit report s w
  rw [← houtcome] at hframe
  have hkept := hk
  rw [houtcome] at hkept
  obtain ⟨e, hemit, hek⟩ := OutputState.emitUnit_eq_ok hkept
  rw [← houtcome] at hemit
  obtain ⟨output, w₀, h₁, symbols, houtput, hpublish, hsymbols, hkeeps⟩ := emit_eq_ok hemit
  rw [hek] at hkeeps
  split at hkeeps
  · obtain rfl := Option.some.inj hkeeps
    exact ⟨output, w₀.host, ⟨unit, w, w₀, hreaches, rfl, houtput⟩, ⟨h₁, hpublish, hsymbols⟩, hk,
      by rw [hframe]; exact hoptions, rfl, rfl⟩
  · exact absurd hkeeps (by simp)

end Turn

/-- Kept bytes that were written again are still kept. -/
theorem OutputState.reuse_eq_ok {o : BuildOptions} {k : KeptOutput} {report : Report}
    {s : OutputState ρ φ υ} {w : World σ} {r : BuildResult}
    (hr : (reuse o k report s w).result = .ok r) :
    k.write o w.host = (.ok (), (reuse o k report s w).world.host) := by
  unfold reuse at hr ⊢
  rcases hwrite : k.write o w.host with ⟨e | ⟨⟩, host⟩
  · rw [hwrite] at hr
    exact absurd hr (by simp)
  · rfl

/-- **Success.** A turn that succeeds makes what it keeps, or writes it again. -/
theorem Turn.makes_or_rewrites {r : BuildResult} (hr : (u.outcome t).result = .ok r)
    (hsucceeded : r.succeeded = true) :
    (∃ output h k, u.Makes t output h k) ∨ ∃ k h, u.Rewrites t k h := by
  have hcourse := OutputState.course_build t u.options u.state u.world
  generalize hout : u.state.build t u.options u.world = out at hcourse
  have houtcome : u.outcome t = out := hout
  rw [houtcome] at hr
  cases hcourse with
  | unfounded => exact absurd hr (by simp)
  | stuck => exact absurd hr (by simp)
  | founded new create =>
      obtain ⟨k, hk⟩ := OutputState.exists_kept_of_emitUnit hr hsucceeded
      rw [← houtcome] at hk
      obtain ⟨output, h, hmakes⟩ := makes_of_emitUnit (.founded new create) rfl houtcome hk
      exact .inl ⟨output, h, k, hmakes⟩
  | emitted old update changed =>
      obtain ⟨k, hk⟩ := OutputState.exists_kept_of_emitUnit hr hsucceeded
      rw [← houtcome] at hk
      obtain ⟨output, h, hmakes⟩ := makes_of_emitUnit (.updated old update changed) rfl houtcome hk
      exact .inl ⟨output, h, k, hmakes⟩
  | @reused c c' plan w k old update unchanged =>
      have hwrite := OutputState.reuse_eq_ok hr
      obtain ⟨hstate, -⟩ := OutputState.reuse_frame u.options k (plan.report .reused)
        (u.state.advance u.options c') w
      rw [← houtcome] at hwrite hstate
      obtain ⟨-, hkept, -⟩ := OutputState.reusable?_eq_some unchanged
      exact .inr ⟨k, w.host, ⟨c, c', plan, w, old, rfl, update, unchanged⟩, hwrite,
        by rw [hstate]; exact hkept, by rw [hstate]; rfl⟩

/-! ### Runs -/

/-- The last emission of a run, with what the run still keeps of it. -/
structure LastMade (t : Toolchain σ ρ φ υ) (turns : List (Turn σ ρ φ υ)) (s : OutputState ρ φ υ)
    (origin : Turn σ ρ φ υ) (later : List (Turn σ ρ φ υ)) (output : EmitOutput) (h : Host)
    (k : KeptOutput) : Prop where
  /-- The turn belongs to the run. -/
  turn : ∃ earlier, turns = later ++ origin :: earlier
  makes : origin.Makes t output h k
  /-- No later turn came to emit anything. -/
  last : ∀ v ∈ later, ∀ unit w, ¬ v.Reaches t unit w
  kept : s.kept = some k
  /-- Every request since had the turn's identity. -/
  identity : ∃ current, s.options = some current ∧ origin.options.sameIdentity current = true

variable {turns later : List (Turn σ ρ φ υ)} {s s' : OutputState ρ φ υ} {origin : Turn σ ρ φ υ}
  {output : EmitOutput} {h : Host} {k : KeptOutput}

/-- A turn that emits nothing and keeps the bytes leaves their emission the last one. -/
theorem LastMade.cons (hlast : LastMade t turns s origin later output h k)
    (hquiet : ∀ unit w, ¬ u.Reaches t unit w) (hkept : s'.kept = s.kept)
    (hidentity : ∀ previous, s.options = some previous →
      ∃ current, s'.options = some current ∧ previous.sameIdentity current = true) :
    LastMade t (u :: turns) s' origin (u :: later) output h k := by
  obtain ⟨earlier, rfl⟩ := hlast.turn
  obtain ⟨previous, hprevious, hsame⟩ := hlast.identity
  obtain ⟨current, hcurrent, hsame'⟩ := hidentity previous hprevious
  refine ⟨⟨earlier, rfl⟩, hlast.makes, fun v hv => ?_, hkept.trans hlast.kept,
    ⟨current, hcurrent, BuildOptions.sameIdentity_trans hsame hsame'⟩⟩
  rcases List.mem_cons.mp hv with rfl | hv
  · exact hquiet
  · exact hlast.last v hv

/-- **Step.** What a turn keeps it has made, or the last emission before it. -/
theorem LastMade.step
    (hstate : ∀ k, u.state.kept = some k →
      ∃ origin later output h, LastMade t turns u.state origin later output h k)
    (hk : (u.outcome t).state.kept = some k) :
    ∃ origin later output h,
      LastMade t (u :: turns) (u.outcome t).state origin later output h k := by
  have hcourse := OutputState.course_build t u.options u.state u.world
  generalize hout : u.state.build t u.options u.world = out at hcourse
  have houtcome : u.outcome t = out := hout
  have hmade {unit : υ} {w : World σ} {report : Report} {s : OutputState ρ φ υ}
      (hreaches : u.Reaches t unit w) (hoptions : s.options = some u.options)
      (hemit : u.outcome t = OutputState.emitUnit t u.options unit report s w) :
      ∃ origin later output h,
        LastMade t (u :: turns) (u.outcome t).state origin later output h k := by
    obtain ⟨output, h, hmakes⟩ := Turn.makes_of_emitUnit hreaches hoptions hemit hk
    exact ⟨u, [], output, h, ⟨turns, rfl⟩, hmakes, by simp, hk, u.options, hmakes.options,
      BuildOptions.sameIdentity_refl _⟩
  have hcarried (hquiet : ∀ unit w, ¬ u.Reaches t unit w)
      (hkept : (u.outcome t).state.kept = u.state.kept)
      (hidentity : ∀ previous, u.state.options = some previous → ∃ current,
        (u.outcome t).state.options = some current ∧ previous.sameIdentity current = true) :
      ∃ origin later output h,
        LastMade t (u :: turns) (u.outcome t).state origin later output h k := by
    obtain ⟨origin, later, output, h, hlast⟩ := hstate k (hkept.symm.trans hk)
    exact ⟨origin, u :: later, output, h, hlast.cons hquiet hkept hidentity⟩
  cases hcourse with
  | unfounded new create =>
      refine hcarried (fun unit w hreaches => ?_) (by rw [houtcome]) fun previous hprevious =>
        ⟨previous, by rw [houtcome]; exact hprevious, BuildOptions.sameIdentity_refl _⟩
      cases hreaches with
      | founded _ hcreate => exact absurd (create.symm.trans hcreate) (by simp)
      | updated hold => exact absurd (new.symm.trans hold) (by simp)
  | founded new create => exact hmade (.founded new create) rfl houtcome
  | stuck old update =>
      refine hcarried (fun unit w hreaches => ?_) (by rw [houtcome]) fun previous hprevious =>
        ⟨previous, by rw [houtcome]; exact hprevious, BuildOptions.sameIdentity_refl _⟩
      cases hreaches with
      | founded hnew => exact absurd (old.symm.trans hnew) (by simp)
      | updated hold hupdate =>
          obtain rfl := Option.some.inj (old.symm.trans hold)
          exact absurd (update.symm.trans hupdate) (by simp)
  | emitted old update changed => exact hmade (.updated old update changed) rfl houtcome
  | @reused c c' plan w k' old update unchanged =>
      obtain ⟨hframe, -⟩ := OutputState.reuse_frame u.options k' (plan.report .reused)
        (u.state.advance u.options c') w
      rw [← houtcome] at hframe
      refine hcarried (fun unit w' hreaches => ?_) (by rw [hframe]; rfl) fun previous hprevious =>
        ⟨u.options, by rw [hframe]; rfl, ?_⟩
      · cases hreaches with
        | founded hnew => exact absurd (old.symm.trans hnew) (by simp)
        | updated hold hupdate hchanged =>
            obtain rfl := Option.some.inj (old.symm.trans hold)
            obtain ⟨hvalue, -⟩ := Prod.mk.inj (update.symm.trans hupdate)
            obtain ⟨rfl, -⟩ := Prod.mk.inj (Except.ok.inj hvalue)
            exact absurd (unchanged.symm.trans hchanged) (by simp)
      · obtain ⟨previous', hprevious', hsame, -⟩ := OutputState.continued?_eq_some old
        obtain rfl := Option.some.inj (hprevious.symm.trans hprevious')
        exact hsame

/-- **Run.** What a run keeps was made by its last emission. -/
theorem Run.lastMade {engine : σ} (run : Run t turns s engine) (hk : s.kept = some k) :
    ∃ origin later output h, LastMade t turns s origin later output h k := by
  induction run generalizing k with
  | start => exact absurd hk (by simp)
  | next run o host ih => exact LastMade.step (fun _ => ih) hk

/-- A turn that delivers what is kept of an emission: it has made it, or writes it again. -/
def Turn.Delivers (t : Toolchain σ ρ φ υ) (u origin : Turn σ ρ φ υ) (k : KeptOutput) : Prop :=
  origin = u ∨ ∃ h, u.Rewrites t k h

/-- **Success in a run.** A turn that succeeds keeps something of the last emission, which is its
own unless it wrote the bytes again. -/
theorem Run.lastMade_of_success {engine : σ} (run : Run t turns s engine) (hstate : u.state = s)
    (hworld : u.world.engine = engine) {r : BuildResult} (hr : (u.outcome t).result = .ok r)
    (hsucceeded : r.succeeded = true) :
    ∃ origin later output h k,
      LastMade t (u :: turns) (u.outcome t).state origin later output h k ∧
        u.Delivers t origin k := by
  have run' : Run t (u :: turns) (u.outcome t).state (u.outcome t).world.engine := by
    obtain ⟨o, s, ⟨host, engine⟩⟩ := u
    obtain rfl := hstate
    obtain rfl := hworld
    exact run.next o host
  rcases Turn.makes_or_rewrites hr hsucceeded with ⟨output, h, k, hmakes⟩ | ⟨k, h', hrewrites⟩
  · obtain ⟨origin, later, output, h, hlast⟩ := run'.lastMade hmakes.stored
    refine ⟨origin, later, output, h, k, hlast, .inl ?_⟩
    obtain ⟨earlier, hturns⟩ := hlast.turn
    cases later with
    | nil => exact (List.cons.inj hturns).1.symm
    | cons v rest =>
        -- The turn has emitted, so it is not among those that emitted nothing.
        obtain rfl := (List.cons.inj hturns).1
        obtain ⟨unit, w₀, w, hreaches, -⟩ := hmakes.emitted
        exact absurd hreaches (hlast.last u List.mem_cons_self unit w₀)
  · obtain ⟨origin, later, output, h, hlast⟩ := run'.lastMade hrewrites.stored
    exact ⟨origin, later, output, h, k, hlast, .inr ⟨h', hrewrites⟩⟩

/-! ### Writing kept bytes again -/

namespace KeptOutput

variable {o : BuildOptions} {h' : Host} {p : Path} {b : Bytes}

/-- Kept bytes are written again by publishing the binary, and then the symbols if there are any. -/
theorem write_eq_ok (hwrite : k.write o h = (.ok (), h')) :
    ∃ h₁, publish o.outputPath k.binary h = (.ok (), h₁) ∧
      ((∃ p b, o.symbolPath? = some p ∧ k.symbols = some b ∧ publish p b h₁ = (.ok (), h')) ∨
        (o.symbolPath? = none ∨ k.symbols = none) ∧ h' = h₁) := by
  rw [write.eq_def] at hwrite
  split at hwrite
  · exact absurd hwrite (by simp)
  · next h₁ hpublish =>
    refine ⟨h₁, hpublish, ?_⟩
    rcases hp : o.symbolPath? with _ | p <;> rcases hsymbols : k.symbols with _ | b <;>
      rw [hp, hsymbols] at hwrite
    case some.some => exact .inl ⟨p, b, rfl, rfl, hwrite⟩
    all_goals exact .inr ⟨by simp, (Prod.mk.inj hwrite).2.symm⟩

/-- The symbol path of a binary is clear of it, unless symbols are written over the binary. -/
theorem clearOf_symbolPath (hp : o.symbolPath? = some p) (hname : o.outputPath.HasName)
    (hnamed : p.HasName) (hover : ¬ o.SymbolsOverBinary) : o.outputPath.ClearOf p := by
  rw [BuildOptions.symbolPath?] at hp
  rw [BuildOptions.SymbolsOverBinary] at hover
  cases hmode : o.debugSymbols <;> rw [hmode] at hp hover
  case none => exact absurd hp (by simp [SymbolMode.symbolPath?])
  case native =>
    obtain rfl := Option.some.inj hp
    exact hname.clearOf_native hnamed fun heq => hover ⟨rfl, heq⟩
  case converted | portable =>
    obtain rfl := Option.some.inj hp
    exact hname.clearOf_portable

/-- The binary that was written again is there, unless symbols were written over it. -/
theorem shows_binary (hwrite : k.write o h = (.ok (), h')) (hc : h.Calm)
    (hclear : k.symbols = none ∨ ¬ o.SymbolsOverBinary) : h'.Shows o.outputPath k.binary := by
  obtain ⟨h₁, hpublish, ⟨p, b, hp, hb, hsymbols⟩ | ⟨-, rfl⟩⟩ := write_eq_ok hwrite
  · have hover := hclear.resolve_left (by rw [hb]; simp)
    obtain ⟨htouches, hshows, hname⟩ := publish_eq_ok hc hpublish
    obtain ⟨htouches', -, hnamed⟩ := publish_eq_ok (htouches.later.calm hc) hsymbols
    exact htouches'.shows (Files.place_not_mem (clearOf_symbolPath hp hname hnamed hover)) hshows
  · exact (publish_eq_ok hc hpublish).2.1

/-- Symbols that were written again are there. -/
theorem shows_symbols (hwrite : k.write o h = (.ok (), h')) (hc : h.Calm)
    (hp : o.symbolPath? = some p) (hb : k.symbols = some b) : h'.Shows p b := by
  obtain ⟨h₁, hpublish, ⟨p', b', hp', hb', hsymbols⟩ | ⟨hnone, -⟩⟩ := write_eq_ok hwrite
  · obtain rfl := Option.some.inj (hp.symm.trans hp')
    obtain rfl := Option.some.inj (hb.symm.trans hb')
    exact (publish_eq_ok ((publish_eq_ok hc hpublish).1.later.calm hc) hsymbols).2.1
  · rcases hnone with hnone | hnone
    · exact absurd (hp.symm.trans hnone) (by simp)
    · exact absurd (hb.symm.trans hnone) (by simp)

end KeptOutput

/-! ### The binary at the output path -/

namespace Turn

/-- A turn begins to write on a host that comes after the one it met. -/
theorem Reaches.precedes {unit : υ} {w : World σ} (hreaches : u.Reaches t unit w)
    (hengine : t.engine.PlansNothing) : u.world.host.Precedes w.host := by
  cases hreaches with
  | founded _ create => exact hengine.create create
  | updated _ update => exact hengine.update update

/-- An emission begins to write on a host that comes after the one that the turn met. -/
theorem Makes.precedes (hmakes : u.Makes t output h k) (hengine : t.engine.PlansNothing) :
    u.world.host.Precedes h := by
  obtain ⟨unit, w₀, w, hreaches, rfl, hemit⟩ := hmakes.emitted
  have hemits := hengine.emit unit u.options.debugSymbols.emitFormat? w₀
  rw [hemit] at hemits
  exact (hreaches.precedes hengine).trans hemits

/-- Kept bytes are written again on a host that comes after the one that the turn met. -/
theorem Rewrites.precedes (hrewrites : u.Rewrites t k h) (hengine : t.engine.PlansNothing) :
    u.world.host.Precedes h := by
  obtain ⟨c, c', plan, w, -, rfl, hupdate, -⟩ := hrewrites.updated
  exact hengine.update hupdate

/-- Kept bytes that are written again were made for the mode of the request. -/
theorem Rewrites.mode (hrewrites : u.Rewrites t k h) : k.mode = u.options.debugSymbols := by
  obtain ⟨c, c', plan, w, -, -, -, hreusable⟩ := hrewrites.updated
  exact (OutputState.reusable?_eq_some hreusable).2.2

/-- The binary that was made is there, unless symbols were written over it. -/
theorem Makes.shows_binary (hmakes : u.Makes t output h k) (hc : h.Calm)
    (honly : t.converter.WritesOnlySymbols)
    (hclear : output.symbols = none ∨ ¬ u.options.SymbolsOverBinary) :
    (u.outcome t).world.host.Shows u.options.outputPath k.binary := by
  obtain ⟨h₁, hpublish, hsymbols⟩ := hmakes.written
  obtain ⟨htouches, hshows, hname⟩ := publish_eq_ok hc hpublish
  rw [hmakes.binary]
  rcases hclear with hnone | hover
  · rw [(hsymbols.of_eq_none hnone).2]
    exact hshows
  · exact hsymbols.shows_binary (htouches.later.calm hc) honly hname hover hshows

/-- Symbols that were made and kept are there. -/
theorem Makes.shows_symbols {p : Path} {b : Bytes} (hmakes : u.Makes t output h k) (hc : h.Calm)
    (hplans : t.converter.PlansNothing) (hp : u.options.symbolPath? = some p)
    (hb : k.symbols = some b) : (u.outcome t).world.host.Shows p b := by
  obtain ⟨h₁, hpublish, hsymbols⟩ := hmakes.written
  rw [hb] at hsymbols
  exact hsymbols.shows_symbols ((publish_eq_ok hc hpublish).1.later.calm hc) hplans hp

end Turn

namespace LastMade

/-- Symbols that are not to be converted are kept as they were put out. -/
theorem symbols_eq (hlast : LastMade t turns s origin later output h k)
    (hmode : k.mode ≠ .converted) : k.symbols = output.symbols := by
  obtain ⟨h₁, -, hsymbols⟩ := hlast.makes.written
  exact hsymbols.eq_emitted (hlast.makes.mode ▸ hmode)

variable (hlast : LastMade t turns s origin later output h k) (hdelivers : u.Delivers t origin k)
include hlast hdelivers

/-- What is delivered has the symbols that were asked for. -/
theorem mode_eq : k.mode = u.options.debugSymbols := by
  rcases hdelivers with rfl | ⟨h', hrewrites⟩
  · exact hlast.makes.mode
  · exact hrewrites.mode

/-- The binary that is delivered is there, unless symbols were written over it. -/
theorem shows_binary (hengine : t.engine.PlansNothing) (honly : t.converter.WritesOnlySymbols)
    (hc : u.world.host.Calm) (hclear : output.symbols = none ∨ ¬ u.options.SymbolsOverBinary) :
    (u.outcome t).world.host.Shows u.options.outputPath output.binary := by
  rw [← hlast.makes.binary]
  rcases hdelivers with rfl | ⟨h', hrewrites⟩
  · exact hlast.makes.shows_binary ((hlast.makes.precedes hengine).calm hc) honly hclear
  · refine KeptOutput.shows_binary hrewrites.written ((hrewrites.precedes hengine).calm hc)
      (hclear.imp_left fun hnone => ?_)
    obtain ⟨h₁, -, hsymbols⟩ := hlast.makes.written
    exact (hsymbols.of_eq_none hnone).1

/-- Symbols that are delivered are there. -/
theorem shows_symbols (hengine : t.engine.PlansNothing) (hplans : t.converter.PlansNothing)
    (hc : u.world.host.Calm) {p : Path} {b : Bytes} (hp : u.options.symbolPath? = some p)
    (hb : k.symbols = some b) : (u.outcome t).world.host.Shows p b := by
  rcases hdelivers with rfl | ⟨h', hrewrites⟩
  · exact hlast.makes.shows_symbols ((hlast.makes.precedes hengine).calm hc) hplans hp hb
  · exact KeptOutput.shows_symbols hrewrites.written ((hrewrites.precedes hengine).calm hc) hp hb

end LastMade

/-- **The binary.** After a build that succeeds, the output path shows the binary that the last
emission of the run put out, whether the build made it or wrote it again. Only symbols in the
compiler's own format, if they have its path, stand there in its stead. -/
theorem Run.output_shows_binary {engine : σ} (run : Run t turns s engine) (hstate : u.state = s)
    (hworld : u.world.engine = engine) (hengine : t.engine.PlansNothing)
    (honly : t.converter.WritesOnlySymbols) (hc : u.world.host.Calm) {r : BuildResult}
    (hr : (u.outcome t).result = .ok r) (hsucceeded : r.succeeded = true) :
    ∃ origin later output h k,
      LastMade t (u :: turns) (u.outcome t).state origin later output h k ∧
      (¬ u.options.SymbolsOverBinary →
        (u.outcome t).world.host.Shows u.options.outputPath output.binary) ∧
      (u.options.SymbolsOverBinary → u.options.debugSymbols = .native →
        (u.outcome t).world.host.Shows u.options.outputPath
          (output.symbols.getD output.binary)) := by
  obtain ⟨origin, later, output, h, k, hlast, hdelivers⟩ :=
    run.lastMade_of_success hstate hworld hr hsucceeded
  refine ⟨origin, later, output, h, k, hlast, fun hover => ?_, fun hover hmode => ?_⟩
  · exact hlast.shows_binary hdelivers hengine honly hc (.inr hover)
  · cases hemitted : output.symbols with
    | none => exact hlast.shows_binary hdelivers hengine honly hc (.inl hemitted)
    | some b =>
        have hp : u.options.symbolPath? = some u.options.outputPath := by
          rw [BuildOptions.symbolPath?, hmode, SymbolMode.symbolPath?, hover.2]
        have hsymbols := hlast.symbols_eq (by rw [hlast.mode_eq hdelivers, hmode]; simp)
        exact hlast.shows_symbols hdelivers hengine honly.plansNothing hc hp
          (hsymbols.trans hemitted)

/-! ### Symbols with the path of the binary -/

namespace Overwritten

open Recording

/-- A request for an output with symbols of some format. -/
def request (mode : SymbolMode) (output : String) : BuildOptions :=
  { workDirectory := "/", assemblyName := "Game", output, debugSymbols := mode }

/-- A turn on an empty host. -/
def first (mode : SymbolMode) (output : String) : Turn State Reference Source RecordedUnit :=
  ⟨request mode output, {}, ⟨{}, {}⟩⟩

/-- The recording engine with a converter that copies the symbols it finds. -/
def copying : Toolchain State Reference Source RecordedUnit :=
  { toolchain with converter := .copying }

/-- The binary of an ordinary output is there after it was built, with symbols in the compiler's own
format or converted ones beside it. -/
theorem ordinary_output_shows_binary :
    (∃ origin later output h k,
      LastMade toolchain [first .native "Game.dll"]
        ((first .native "Game.dll").outcome toolchain).state origin later output h k ∧
      ((first .native "Game.dll").outcome toolchain).world.host.Shows ⟨"/Game.dll"⟩
        output.binary) ∧
    ∃ origin later output h k,
      LastMade copying [first .converted "Game.dll"]
        ((first .converted "Game.dll").outcome copying).state origin later output h k ∧
      ((first .converted "Game.dll").outcome copying).world.host.Shows ⟨"/Game.dll"⟩
        output.binary := by
  constructor
  · have hr : ((first .native "Game.dll").outcome toolchain).result = .ok .success := by
      decide +kernel
    have hover : ¬ (request .native "Game.dll").SymbolsOverBinary := fun hover =>
      absurd hover.2 (by decide +kernel)
    obtain ⟨origin, later, output, h, k, hlast, hshows, -⟩ :=
      Run.output_shows_binary (t := toolchain) (u := first .native "Game.dll") (.start {}) rfl rfl
        plansNothing (Converter.writesOnlySymbols_exiting 0) (Host.calm_of_quiet rfl rfl) hr rfl
    exact ⟨origin, later, output, h, k, hlast, hshows hover⟩
  · have hr : ((first .converted "Game.dll").outcome copying).result = .ok .success := by
      decide +kernel
    have hover : ¬ (request .converted "Game.dll").SymbolsOverBinary := fun hover =>
      absurd hover.2 (by decide +kernel)
    obtain ⟨origin, later, output, h, k, hlast, hshows, -⟩ :=
      Run.output_shows_binary (t := copying) (u := first .converted "Game.dll") (.start {}) rfl rfl
        plansNothing Converter.writesOnlySymbols_copying (Host.calm_of_quiet rfl rfl) hr rfl
    exact ⟨origin, later, output, h, k, hlast, hshows hover⟩

/-- An output that has the path of its own symbols holds them after it was built. -/
theorem output_holds_symbols :
    Run toolchain [first .native "Game.pdb"] ((first .native "Game.pdb").outcome toolchain).state
        ((first .native "Game.pdb").outcome toolchain).world.engine ∧
      toolchain.engine.PlansNothing ∧ toolchain.converter.WritesOnlySymbols ∧
      (first .native "Game.pdb").world.host.Calm ∧
      ((first .native "Game.pdb").outcome toolchain).result = .ok .success ∧
      ((first .native "Game.pdb").outcome toolchain).state.kept.map KeptOutput.binary =
        some (Bytes.ofString "emit#1|Game||") ∧
      (first .native "Game.pdb").options.outputPath = ⟨"/Game.pdb"⟩ ∧
      ((first .native "Game.pdb").outcome toolchain).world.host.Shows ⟨"/Game.pdb"⟩
        (Bytes.ofString "native#1") ∧
      ¬ ((first .native "Game.pdb").outcome toolchain).world.host.Shows ⟨"/Game.pdb"⟩
        (Bytes.ofString "emit#1|Game||") := by
  have hshows : ((first .native "Game.pdb").outcome toolchain).world.host.Shows ⟨"/Game.pdb"⟩
      (Bytes.ofString "native#1") := by
    rw [Host.Shows]
    decide +kernel
  refine ⟨Run.first toolchain rfl, plansNothing, Converter.writesOnlySymbols_exiting 0,
    Host.calm_of_quiet rfl rfl, ?_, ?_, ?_, hshows, fun hbinary => ?_⟩
  · decide +kernel
  · decide +kernel
  · decide +kernel
  · exact absurd (hshows.unique hbinary) (by decide +kernel)

end Overwritten
end IncrementalBuild
