import IncrementalBuild.Proofs.Decision
import IncrementalBuild.Proofs.Engine.Akin
/-!
# Runs of requests that list the same inputs in another order

Order and repetition of inputs do not matter to the engine that runs a compiler. Two runs whose
requests differ in the order in which they list their files and references, and in how often, take
the same decisions, find the same changes and hold the same units, turn by turn.

The files may be edited between the turns, with one exception. A path can be spelled so that nothing
is found under it, as with a separator behind the name of a file, and shows the epoch then, whatever
time the file has. Such a spelling goes unnoticed in a request that lists it first, as long as the
file itself was as old as the epoch when it was taken. So a file that is found as old as the epoch
must stay so; inputs that do not change at all do.

## Main definitions

* `Turn.Finds`, `Turn.OldRest` — the times of inputs that a turn finds, and turns between which the
  inputs that are as old as the epoch stay so.
* `OutputState.Akin`, `Outcome.Akin`, `Report.Akin` — states, outcomes and reports that differ in
  the order and the spelling of inputs at most.
* `Turn.Reorders` — two turns whose requests list the same inputs.
* `Turn.AnsweredAlike` — two turns with the same decisions, changes and units.
* `Twin` — where two runs stand that list the same inputs.

## Main results

* `emit_akin` — akin units lead to the same output.
* `Command.sound_emit` — running a compiler does not crash.
* `Twin.step` — one more pair of turns.
* `Run.reordered` — two runs with the same inputs in another order.
-/

namespace IncrementalBuild

variable {σ ρ φ υ α β : Type}

/-! ### Emitting -/

/-- Akin reports come to the same success. -/
theorem BuildResult.succeeded_ofDiagnostics {ds es : List Diagnostic} (succeeded : Bool)
    (h : List.Forall₂ Diagnostic.Akin ds es) :
    (ofDiagnostics succeeded ds).succeeded = (ofDiagnostics succeeded es).succeeded := by
  have hfold : ∀ r r' : BuildResult, r.succeeded = r'.succeeded →
      (ds.foldl add r).succeeded = (es.foldl add r').succeeded := by
    induction h with
    | nil => exact fun r r' hr => hr
    | @cons d e ds es hde _ ih =>
        refine fun r r' hr => ih _ _ ?_
        rw [hde, add, add]
        dsimp only
        split <;> first | rfl | exact hr
  exact hfold _ _ rfl

/-- What two emits yield when one keeps the bytes that the other keeps. -/
structure Emitted.Akin (e d : Emitted) : Prop where
  kept : e.kept = d.kept
  succeeded : e.result.succeeded = d.result.succeeded

/-- **Akin outputs** are written alike, and lead to the same bytes to keep. -/
theorem emit_akin {t : Toolchain σ ρ φ υ} {u v : υ} {o : BuildOptions} {w : World σ}
    (h : Task.Matched EmitOutput.Akin (t.engine.emit u o.debugSymbols.emitFormat? w)
      (t.engine.emit v o.debugSymbols.emitFormat? w)) :
    Task.Matched Emitted.Akin (emit t u o w) (emit t v o w) := by
  refine h.bind fun output output' w₁ _ houtput => ?_
  rw [houtput.binary]
  refine Task.Matched.bind (R := Eq) (.refl (fun _ => rfl) _) fun _ _ w₂ _ _ => ?_
  rw [houtput.symbols]
  refine Task.Matched.bind (R := Eq) (.refl (fun _ => rfl) _) fun written _ w₃ _ hwritten => ?_
  subst hwritten
  rw [houtput.succeeded]
  have hsucceeded := BuildResult.succeeded_ofDiagnostics output'.succeeded houtput.diagnostics
  -- Whether symbols are converted or not, the results succeed alike and the symbols are the same.
  let R : BuildResult × Option Bytes → BuildResult × Option Bytes → Prop :=
    fun p q => p.1.succeeded = q.1.succeeded ∧ p.2 = q.2
  dsimp only
  split
  all_goals
    refine Task.Matched.bind (R := R) ?_ fun p q w₄ _ hpq => ?_
  · rw [Task.onHost, Task.onHost, convertWritten, convertWritten]
    rcases convertSymbols t.converter o.outputPath w₃.host with ⟨e | symbols, host⟩
    · exact .done ⟨hsucceeded, rfl⟩
    · exact .done ⟨hsucceeded, rfl⟩
  · exact .done ⟨by rw [hpq.1, hpq.2], hpq.1⟩
  · exact .done ⟨hsucceeded, rfl⟩
  · exact .done ⟨by rw [hpq.1, hpq.2], hpq.1⟩

/-! ### Crashes -/

/-- A task that never crashes. -/
def Task.Sound (t : Task σ α) : Prop := ∀ w, (t w).1 ≠ .error .crash

namespace Task.Sound

/-- A value is no crash. -/
theorem pure (a : α) : Sound (Pure.pure a : Task σ α) := fun _ h => by cases h

/-- Work on the host does not crash. -/
theorem onHost (f : Host → Except BuildError α × Host) : Sound (Task.onHost f : Task σ α) := by
  intro w
  rw [Task.onHost]
  rcases f w.host with ⟨e | a, host⟩ <;> simp

/-- A task in two parts that do not crash does not crash. -/
theorem bind {t : Task σ α} {f : α → Task σ β} (ht : Sound t) (hf : ∀ a, Sound (f a)) :
    Sound (t >>= f) := by
  intro w
  rw [Task.bind_apply]
  rcases hend : t w with ⟨e | a, w'⟩
  · exact fun h => ht w (by rw [hend, Except.error.inj h])
  · exact hf a w'

/-- A task for every item does not crash if it does not crash for one. -/
theorem forAll {f : α → Task σ β} (hf : ∀ a, Sound (f a)) (items : List α) :
    Sound (Task.forAll f items) := by
  induction items with
  | nil => exact pure []
  | cons a rest ih => exact (hf a).bind fun b => ih.bind fun bs => pure (b :: bs)

end Task.Sound

/-- Running a compiler does not crash. -/
theorem Command.sound_emit (command : Compiler) (u : CommandUnit)
    (format : Option SymbolFormat) : Task.Sound (emit (σ := σ) command u format) := by
  have hscratch : ∀ {t : Path → Task σ EmitOutput}, (∀ dir, Task.Sound (t dir)) →
      Task.Sound (inScratch t) := fun ht => (Task.Sound.onHost _).bind fun dir w => ht dir w
  refine hscratch fun dir => ?_
  refine ((Task.Sound.forAll (fun _ => .onHost _) _).bind fun _ => .pure _).bind fun _ => ?_
  refine (Task.Sound.onHost _).bind fun run => ?_
  refine Task.Sound.bind (fun w => ?_) fun binary => Task.Sound.bind (fun w => ?_) fun symbols =>
    .pure _
  · rw [takeBinary]
    rcases Access.read (binaryFile dir) w.host with ⟨e | bytes, host⟩
    · dsimp only
      split <;> simp
    · simp
  · cases format with
    | none => simp [takeSymbols]
    | some _ =>
        rw [takeSymbols]
        rcases Access.read (symbolFile dir) w.host with ⟨e | bytes, host⟩ <;> simp

/-- An emit does not crash if the engine does not. -/
theorem sound_emit {t : Toolchain σ ρ φ υ} {unit : υ} {o : BuildOptions}
    (h : Task.Sound (t.engine.emit unit o.debugSymbols.emitFormat?)) :
    Task.Sound (emit t unit o) := by
  refine h.bind fun output => (Task.Sound.onHost _).bind fun _ => (Task.Sound.onHost _).bind
    fun written => ?_
  dsimp only
  split
  · exact (Task.Sound.onHost _).bind fun _ => .pure _
  · exact (Task.Sound.pure _).bind fun _ => .pure _

/-- A unit that is emitted without a crash is reported. -/
theorem OutputState.report_emitUnit {t : Toolchain σ ρ φ υ} {unit : υ} {o : BuildOptions}
    (h : Task.Sound (emit t unit o)) (report : Report) (s : OutputState ρ φ υ) (w : World σ) :
    (emitUnit t o unit report s w).state.report = some report := by
  rw [emitUnit]
  rcases hend : emit t unit o w with ⟨e | e, w'⟩
  · cases e with
    | crash => exact absurd (congrArg Prod.fst hend) (h w)
    | error => rfl
  · rfl

/-! ### States -/

namespace BuildOptions.Reorders

variable {o o' p p' : BuildOptions}

/-- Requests of one identity have one when they list their inputs in another order. -/
theorem sameIdentity (hp : p.Reorders p') (ho : o.Reorders o') :
    p.sameIdentity o = p'.sameIdentity o' := by
  rw [hp.others, ho.others]
  rfl

/-- They want their output in one place. -/
theorem outputPath (ho : o.Reorders o') : o'.outputPath = o.outputPath := by
  rw [ho.others]
  rfl

/-- They want the same symbols. -/
theorem debugSymbols (ho : o.Reorders o') : o'.debugSymbols = o.debugSymbols := by
  rw [ho.others]

/-- They ask for the same of an emit. -/
theorem emit (ho : o.Reorders o') (t : Toolchain σ ρ φ υ) (unit : υ) :
    IncrementalBuild.emit t unit o' = IncrementalBuild.emit t unit o := by
  have hsymbols : writeSymbols o' = writeSymbols o := by
    funext symbols h
    rw [writeSymbols.eq_def, writeSymbols.eq_def, ho.outputPath, ho.debugSymbols]
  have hconvert : convertWritten t.converter o' = convertWritten t.converter o := by
    funext result h
    rw [convertWritten.eq_def, convertWritten.eq_def, ho.outputPath]
  rw [IncrementalBuild.emit, IncrementalBuild.emit, ho.outputPath, ho.debugSymbols, hsymbols,
    hconvert]

/-- Kept bytes are written for them alike. -/
theorem write (ho : o.Reorders o') (k : KeptOutput) : k.write o' = k.write o := by
  have hsymbol : o'.symbolPath? = o.symbolPath? := by
    rw [BuildOptions.symbolPath?, BuildOptions.symbolPath?, ho.outputPath, ho.debugSymbols]
  unfold KeptOutput.write
  rw [ho.outputPath, hsymbol]

end BuildOptions.Reorders

/-- States that differ in the order of requests and the spelling of paths at most. -/
structure OutputState.Akin (s s' : OutputState Path ParsedSource CommandUnit) : Prop where
  options : Option.Rel BuildOptions.Reorders s.options s'.options
  compilation : Option.Rel Compilation.Akin s.compilation s'.compilation
  kept : s.kept = s'.kept

/-- Outcomes with akin states and the same host, which succeeded alike. -/
structure Outcome.Akin (out out' : Outcome σ Path ParsedSource CommandUnit) : Prop where
  state : out.state.Akin out'.state
  result : out.result.map BuildResult.succeeded = out'.result.map BuildResult.succeeded
  world : out.world = out'.world

/-- Reports of the same decisions on akin changes. -/
structure Report.Akin (r r' : Report) : Prop where
  kind : r.kind = r'.kind
  source : r.source = r'.source
  references : r.references.Akin r'.references
  sources : r.sources.Akin r'.sources

namespace OutputState

variable {command : Compiler} {converter : Converter} {o o' : BuildOptions}
  {s s' : OutputState Path ParsedSource CommandUnit} {w : World σ}

/-- Akin states continue akin compilations, or none. -/
theorem Akin.continued? (h : s.Akin s') (ho : o.Reorders o') :
    Option.Rel Compilation.Akin (s.continued? o) (s'.continued? o') := by
  have hoptions := h.options
  rw [OutputState.continued?, OutputState.continued?]
  generalize s.options = previous at hoptions ⊢
  generalize s'.options = previous' at hoptions ⊢
  cases hoptions with
  | none => exact .none
  | some hprevious =>
      dsimp only
      rw [hprevious.sameIdentity ho]
      split
      · exact h.compilation
      · exact .none

/-- Akin states may reuse the same bytes after akin changes. -/
theorem Akin.reusable? (h : s.Akin s') (ho : o.Reorders o')
    {references references' sources sources' : Changes} (hr : references.Akin references')
    (hs : sources.Akin sources') :
    s.reusable? o references sources = s'.reusable? o' references' sources' := by
  have hpolicy : o'.outputReuse = o.outputReuse := by rw [ho.others]
  simp only [OutputState.reusable?, KeptOutput.fits, hpolicy, ho.debugSymbols, h.kept,
    ReusePolicy.allows_congr hr hs]

/-- **Akin units** that are emitted for akin states have akin outcomes. -/
theorem emitUnit_akin {u v : CommandUnit} {report report' : Report} (ho : o.Reorders o')
    (hs : s.Akin s') (huv : u.Akin v)
    (hheedless : Command.Heedless command o.debugSymbols.emitFormat? u v w) :
    (emitUnit ⟨Command.engine command, converter⟩ o u report s w).Akin
      (emitUnit ⟨Command.engine command, converter⟩ o' v report' s' w) := by
  have hemits := emit_akin (t := ⟨Command.engine command, converter⟩)
    (Command.emit_akin huv hheedless)
  rw [emitUnit, emitUnit, ho.emit]
  generalize emit ⟨Command.engine command, converter⟩ u o w = x at hemits ⊢
  generalize emit ⟨Command.engine command, converter⟩ v o w = y at hemits ⊢
  cases hemits with
  | done he => exact ⟨⟨hs.options, hs.compilation, he.kept⟩, congrArg Except.ok he.succeeded, rfl⟩
  | @failed e _ => cases e <;> exact ⟨⟨hs.options, hs.compilation, rfl⟩, rfl, rfl⟩

/-- Akin states that write the same bytes again have akin outcomes. -/
theorem reuse_akin {k : KeptOutput} {report report' : Report} (ho : o.Reorders o')
    (hs : s.Akin s') : (reuse o k report s w).Akin (reuse o' k report' s' w) := by
  unfold reuse
  rw [ho.write]
  rcases k.write o w.host with ⟨e | _, host⟩
  · exact ⟨⟨hs.options, hs.compilation, hs.kept⟩, rfl, rfl⟩
  · exact ⟨⟨hs.options, hs.compilation, hs.kept⟩, rfl, rfl⟩

end OutputState

/-! ### How turns go -/

namespace Turn

variable {t : Toolchain σ ρ φ υ} {u : Turn σ ρ φ υ} {c c' : Compilation ρ φ υ} {plan : Plan}
  {w' : World σ}

/-- The state that a turn leaves that creates a compilation. -/
theorem state_of_create (hnew : u.state.continued? u.options = none)
    (hcreate : Compilation.create t.engine u.options u.world = (.ok c, w')) :
    ∃ kept after, (u.outcome t).state =
      { u.state.found u.options c with kept := kept, report := after } := by
  obtain ⟨kept, after, hstate, -⟩ := OutputState.emitUnit_frame t u.options c.unit
    { kind := .full, source := .emitted } (u.state.found u.options c) w'
  exact ⟨kept, after, by rw [outcome_of_create hnew hcreate, hstate]⟩

/-- A turn that creates a compilation leaves it. -/
theorem compilation_of_create (hnew : u.state.continued? u.options = none)
    (hcreate : Compilation.create t.engine u.options u.world = (.ok c, w')) :
    (u.outcome t).state.compilation = some c := by
  obtain ⟨_, _, hstate⟩ := state_of_create hnew hcreate
  rw [hstate]
  rfl

/-- A turn that creates a compilation got past its inputs. -/
theorem took_of_create (hnew : u.state.continued? u.options = none)
    (hcreate : Compilation.create t.engine u.options u.world = (.ok c, w')) : u.Took t := by
  obtain ⟨_, _, hstate⟩ := state_of_create hnew hcreate
  refine .inl ?_
  rw [Founded, hstate]
  exact Nat.succ_ne_self _

/-- A turn that creates a compilation reports so, unless the engine crashes. -/
theorem report?_of_create (hnew : u.state.continued? u.options = none)
    (hcreate : Compilation.create t.engine u.options u.world = (.ok c, w'))
    (hsound : Task.Sound (emit t c.unit u.options)) :
    u.report? t = some { kind := .full, source := .emitted } := by
  have h := outcome_of_create (u := ⟨u.options, { u.state with report := none }, u.world⟩)
    hnew hcreate
  rw [outcome] at h
  rw [report?, h, OutputState.report_emitUnit hsound]

/-- A turn that emits what it brought up to date reports so, unless the engine crashes. -/
theorem report?_of_changed (hold : u.state.continued? u.options = some c)
    (hupdate : c.update t.engine u.options u.world = (.ok (plan, c'), w'))
    (hchanged : u.state.reusable? u.options plan.references plan.sources = none)
    (hsound : Task.Sound (emit t c'.unit u.options)) :
    u.report? t = some (plan.report .emitted) := by
  have h := outcome_of_changed (u := ⟨u.options, { u.state with report := none }, u.world⟩)
    hold hupdate hchanged
  rw [outcome] at h
  rw [report?, h, OutputState.report_emitUnit hsound]

/-- A turn that got past its inputs without a compilation to continue has created one. -/
theorem Took.exists_create (h : u.Took t) (hnew : u.state.continued? u.options = none) :
    ∃ c w', Compilation.create t.engine u.options u.world = (.ok c, w') := by
  rcases hcreate : Compilation.create t.engine u.options u.world with ⟨e | c, w'⟩
  · exfalso
    rcases h with h | h
    · refine h ?_
      rw [outcome, OutputState.build, hnew]
      dsimp only
      rw [OutputState.buildFull, hcreate]
    · obtain ⟨_, _, _, _, hold, -⟩ := updated_iff.mp h
      exact absurd (hold.symm.trans hnew) (by simp)
  · exact ⟨c, w', rfl⟩

/-- A turn that got past its inputs with a compilation to continue has brought it up to date. -/
theorem Took.exists_update (h : u.Took t) (hold : u.state.continued? u.options = some c) :
    ∃ plan c' w', c.update t.engine u.options u.world = (.ok (plan, c'), w') := by
  rcases hupdate : c.update t.engine u.options u.world with ⟨e | ⟨plan, c'⟩, w'⟩
  · exfalso
    rcases h with h | h
    · refine h ?_
      rw [outcome, OutputState.build, hold]
      dsimp only
      rw [OutputState.buildIncremental, hupdate]
    · obtain ⟨d, c', plan, w'', hold', hupdate'⟩ := updated_iff.mp h
      obtain rfl := Option.some.inj (hold.symm.trans hold')
      exact absurd (hupdate.symm.trans hupdate') (by simp)
  · exact ⟨plan, c', w', rfl⟩

end Turn

/-! ### Times -/

namespace Turn

variable {u v : Turn σ ρ φ υ}

/-- A turn finds an input with a time. -/
def Finds (u : Turn σ ρ φ υ) (x : Path) (time : Timestamp) : Prop :=
  u.world.host.files.Finds u.options.resolve u.options.inputPaths x time

/-- The inputs that one turn finds as old as the epoch, another in the same work directory finds so
too, if it finds them. -/
def OldRest (u v : Turn σ ρ φ υ) : Prop :=
  u.options.workDirectory = v.options.workDirectory →
    ∀ x time, u.Finds x .epoch → v.Finds x time → time = .epoch

/-- Inputs rest that were found before, and stay as old as the epoch if they were so. Inputs that do
not change do. -/
theorem OldRest.of_kept
    (h : ∀ q ∈ v.options.inputPaths,
      (v.world.host.files.contentsOf? (v.options.resolve q)).isSome = true →
        (u.world.host.files.contentsOf? (v.options.resolve q)).isSome = true ∧
          (u.world.host.files.timeOf (v.options.resolve q) = .epoch →
            v.world.host.files.timeOf (v.options.resolve q) = .epoch)) :
    u.OldRest v := by
  rintro hdir x time ⟨p, -, hxp, hp, htime⟩ ⟨q, hq, hxq, hfound, rfl⟩
  obtain ⟨hthere, hkept⟩ := h q hq hfound
  have hresolve : u.options.resolve p = v.options.resolve p := by
    rw [BuildOptions.resolve, BuildOptions.resolve, BuildOptions.workDir, BuildOptions.workDir,
      hdir]
  rw [hresolve] at hp htime
  have hsame := v.options.resolve_same q p (Path.same_trans (Path.same_symm hxq) hxp)
  exact hkept ((Files.timeOf_unique hsame hthere hp).trans htime)

end Turn

/-- What a state shows as old as the epoch, one of the turns found so, in the same work
directory. -/
def OutputState.Seen (turns : List (Turn σ Path ParsedSource CommandUnit))
    (s : OutputState Path ParsedSource CommandUnit) : Prop :=
  ∀ o c, s.options = some o → s.compilation = some c → ∀ x, c.Recalls x .epoch →
    ∃ a ∈ turns, a.options.workDirectory = o.workDirectory ∧ a.Finds x .epoch

/-! ### Two runs -/

/-- Two turns whose requests list the same inputs: they are taken on one quiet host, they both get
past their inputs, and their compiler does the same for their units if these differ in the spelling
of paths only. -/
structure Turn.Reorders (command : Compiler) (converter : Converter)
    (u v : Turn σ Path ParsedSource CommandUnit) : Prop where
  options : u.options.Reorders v.options
  world : u.world = v.world
  quiet : u.world.host.interference = []
  took : u.Took ⟨Command.engine command, converter⟩
  took' : v.Took ⟨Command.engine command, converter⟩
  heedless : ∀ c d, (u.outcome ⟨Command.engine command, converter⟩).state.compilation = some c →
    (v.outcome ⟨Command.engine command, converter⟩).state.compilation = some d →
    c.unit.Akin d.unit →
      Command.Heedless command u.options.debugSymbols.emitFormat? c.unit d.unit u.world

/-- Two turns that take the same decisions, report akin changes, hold akin units and leave the same
behind. -/
structure Turn.AnsweredAlike (t : Toolchain σ Path ParsedSource CommandUnit)
    (u v : Turn σ Path ParsedSource CommandUnit) : Prop where
  reports : ∃ r r', u.report? t = some r ∧ v.report? t = some r' ∧ r.Akin r'
  units : ∃ c d, (u.outcome t).state.compilation = some c ∧
    (v.outcome t).state.compilation = some d ∧ c.unit.Akin d.unit
  outcome : (u.outcome t).Akin (v.outcome t)

/-- Where two runs stand that list the same inputs: their states are akin, and what they show as old
as the epoch was found so. -/
structure Twin (turns : List (Turn σ Path ParsedSource CommandUnit))
    (s s' : OutputState Path ParsedSource CommandUnit) : Prop where
  akin : s.Akin s'
  seen : s.Seen turns

section Twins

variable {command : Compiler} {converter : Converter}
  {turns : List (Turn σ Path ParsedSource CommandUnit)}
  {u v : Turn σ Path ParsedSource CommandUnit}
  {c d : Compilation Path ParsedSource CommandUnit}

/-- A turn that got past its inputs has seen what it shows as old as the epoch, or an earlier turn
has. -/
theorem OutputState.Seen.cons (htook : u.Took ⟨Command.engine command, converter⟩)
    (hc : (u.outcome ⟨Command.engine command, converter⟩).state.compilation = some c)
    (h : ∀ x, c.Recalls x .epoch → u.Finds x .epoch ∨
      ∃ a ∈ turns, a.options.workDirectory = u.options.workDirectory ∧ a.Finds x .epoch) :
    (u.outcome ⟨Command.engine command, converter⟩).state.Seen (u :: turns) := by
  intro o e ho he x hx
  have hsettled := (Turn.settled _ u).resolve_left fun hleft => hleft.1 htook
  obtain rfl := Option.some.inj (hsettled.2.options.symm.trans ho)
  obtain rfl := Option.some.inj (hc.symm.trans he)
  rcases h x hx with hfound | ⟨a, ha, hfound⟩
  · exact ⟨u, List.mem_cons_self, rfl, hfound⟩
  · exact ⟨a, List.mem_cons_of_mem u ha, hfound⟩

/-- **New compilations.** Two turns that create compilations are answered alike. -/
theorem Turn.Reorders.answered_of_new (hpair : u.Reorders command converter v)
    (hnew : u.state.continued? u.options = none) (hnew' : v.state.continued? v.options = none) :
    u.AnsweredAlike ⟨Command.engine command, converter⟩ v ∧
      (u.outcome ⟨Command.engine command, converter⟩).state.Seen (u :: turns) := by
  obtain ⟨c, w₁, hcreate⟩ := hpair.took.exists_create hnew
  obtain ⟨d, w₂, hcreate'⟩ := hpair.took'.exists_create hnew'
  have hworld := hcreate'
  rw [← hpair.world] at hworld
  obtain ⟨rfl, rfl, hcd⟩ := Command.create_akin hpair.quiet hpair.options hcreate hworld
  have hout := Turn.outcome_of_create hnew hcreate
  have hout' := Turn.outcome_of_create hnew' hcreate'
  have hc := Turn.compilation_of_create hnew hcreate
  have hd := Turn.compilation_of_create hnew' hcreate'
  have hreport := Turn.report?_of_create hnew hcreate (sound_emit (Command.sound_emit command _ _))
  have hreport' := Turn.report?_of_create hnew' hcreate'
    (sound_emit (Command.sound_emit command _ _))
  refine ⟨⟨⟨_, _, hreport, hreport', rfl, rfl, .none, .none⟩, ⟨c, d, hc, hd, hcd.unit⟩, ?_⟩, ?_⟩
  · rw [hout, hout']
    exact OutputState.emitUnit_akin hpair.options ⟨.some hpair.options, .some hcd, rfl⟩ hcd.unit
      (hpair.heedless c d hc hd hcd.unit)
  · exact .cons hpair.took hc fun x hx => .inl (Command.create_recalls hpair.quiet hcreate hx)

/-- **Continued compilations.** Two turns that bring akin compilations up to date are answered
alike. -/
theorem Twin.answered_of_old (h : Twin turns u.state v.state)
    (hpair : u.Reorders command converter v) (hrest : ∀ a ∈ turns, a.OldRest u)
    (hold : u.state.continued? u.options = some c) (hold' : v.state.continued? v.options = some d)
    (hcd : c.Akin d) :
    u.AnsweredAlike ⟨Command.engine command, converter⟩ v ∧
      (u.outcome ⟨Command.engine command, converter⟩).state.Seen (u :: turns) := by
  obtain ⟨plan, c', w₁, hupdate⟩ := hpair.took.exists_update hold
  obtain ⟨plan', d', w₂, hupdate'⟩ := hpair.took'.exists_update hold'
  -- What the compilation shows as old as the epoch was found so, and rests.
  obtain ⟨previous, hprevious, hsame, hkept⟩ := OutputState.continued?_eq_some hold
  have hdir : previous.workDirectory = u.options.workDirectory := by
    simp only [BuildOptions.sameIdentity, Bool.and_eq_true, beq_iff_eq] at hsame
    exact hsame.1.1.1.1
  have hseen : ∀ x, c.Recalls x .epoch →
      ∃ a ∈ turns, a.options.workDirectory = u.options.workDirectory ∧ a.Finds x .epoch := by
    rw [← hdir]
    exact h.seen previous c hprevious hkept
  have hrests : ∀ x time, c.Recalls x .epoch → u.Finds x time → time = .epoch := by
    intro x time hx hfound
    obtain ⟨a, ha, hdir, hold⟩ := hseen x hx
    exact hrest a ha hdir x time hold hfound
  have hworld := hupdate'
  rw [← hpair.world] at hworld
  obtain ⟨rfl, rfl, hreferences, hsources, hcd'⟩ := Command.update_akin hpair.quiet hpair.options
    hcd (fun s hs x time hx hfound => hrests x time (.inl ⟨s, hs, hx⟩)
      (hfound.input (List.subset_append_left _ _)))
    (fun s hs x time hx hfound => hrests x time (.inr ⟨s, hs, hx⟩)
      (hfound.input (List.subset_append_right _ _))) hupdate hworld
  have hc := (Turn.state_of_updated (Turn.updated?_eq_some_iff.mpr
    ⟨c, plan, _, hold, hupdate⟩)).1
  have hd := (Turn.state_of_updated (Turn.updated?_eq_some_iff.mpr
    ⟨d, plan', _, hold', hupdate'⟩)).1
  have hstates : (u.state.advance u.options c').Akin (v.state.advance v.options d') :=
    ⟨.some hpair.options, .some hcd', h.akin.kept⟩
  refine ⟨?_, .cons hpair.took hc fun x hx => ?_⟩
  · have hreusable := h.akin.reusable? hpair.options hreferences hsources
    rcases hreuse : u.state.reusable? u.options plan.references plan.sources with _ | k
    · have hreuse' := hreusable.symm.trans hreuse
      have hreport := Turn.report?_of_changed hold hupdate hreuse
        (sound_emit (Command.sound_emit command _ _))
      have hreport' := Turn.report?_of_changed hold' hupdate' hreuse'
        (sound_emit (Command.sound_emit command _ _))
      refine ⟨⟨_, _, hreport, hreport', rfl, rfl, hreferences, hsources⟩,
        ⟨c', d', hc, hd, hcd'.unit⟩, ?_⟩
      rw [Turn.outcome_of_changed hold hupdate hreuse,
        Turn.outcome_of_changed hold' hupdate' hreuse']
      exact OutputState.emitUnit_akin hpair.options hstates hcd'.unit
        (hpair.heedless c' d' hc hd hcd'.unit)
    · have hreuse' := hreusable.symm.trans hreuse
      refine ⟨⟨_, _, Turn.report?_of_reusable hold hupdate hreuse,
        Turn.report?_of_reusable hold' hupdate' hreuse', rfl, rfl, hreferences, hsources⟩,
        ⟨c', d', hc, hd, hcd'.unit⟩, ?_⟩
      rw [Turn.outcome_of_reusable hold hupdate hreuse,
        Turn.outcome_of_reusable hold' hupdate' hreuse']
      exact OutputState.reuse_akin hpair.options hstates
  · exact (Command.update_recalls hpair.quiet hcd hupdate hx).imp id (hseen x)

/-- **Step.** Two turns with akin states and the same inputs are answered alike, and leave akin
states. -/
theorem Twin.step (h : Twin turns u.state v.state) (hpair : u.Reorders command converter v)
    (hrest : ∀ a ∈ turns, a.OldRest u) :
    u.AnsweredAlike ⟨Command.engine command, converter⟩ v ∧
      Twin (u :: turns) (u.outcome ⟨Command.engine command, converter⟩).state
        (v.outcome ⟨Command.engine command, converter⟩).state := by
  suffices hstep : u.AnsweredAlike ⟨Command.engine command, converter⟩ v ∧
      (u.outcome ⟨Command.engine command, converter⟩).state.Seen (u :: turns) from
    ⟨hstep.1, hstep.1.outcome.state, hstep.2⟩
  have hcontinued := h.akin.continued? hpair.options
  rcases hold : u.state.continued? u.options with _ | c <;>
    rcases hold' : v.state.continued? v.options with _ | d <;> rw [hold, hold'] at hcontinued
  · exact hpair.answered_of_new hold hold'
  · cases hcontinued
  · cases hcontinued
  · cases hcontinued with
    | some hcd => exact h.answered_of_old hpair hrest hold hold' hcd

end Twins

/-- **Two runs** whose requests list the same inputs, in any order and any number of times, are
answered alike in every turn, if the files that are as old as the epoch rest. -/
theorem Run.reordered {command : Compiler} {converter : Converter}
    {us vs : List (Turn σ Path ParsedSource CommandUnit)}
    {s s' : OutputState Path ParsedSource CommandUnit} {engine engine' : σ}
    (run : Run ⟨Command.engine command, converter⟩ us s engine)
    (run' : Run ⟨Command.engine command, converter⟩ vs s' engine')
    (hpairs : List.Forall₂ (Turn.Reorders command converter) us vs)
    (hrest : us.Pairwise fun later earlier => earlier.OldRest later) :
    List.Forall₂ (Turn.AnsweredAlike ⟨Command.engine command, converter⟩) us vs := by
  suffices hruns : List.Forall₂ (Turn.AnsweredAlike ⟨Command.engine command, converter⟩) us vs ∧
      Twin us s s' from hruns.1
  induction run generalizing vs s' engine' with
  | start =>
      cases hpairs
      cases run'
      exact ⟨.nil, ⟨.none, .none, rfl⟩, fun _ _ ho => by cases ho⟩
  | @next turns s engine run o host ih =>
      obtain ⟨v, rest, hpair, hothers, rfl⟩ := List.forall₂_cons_left_iff.mp hpairs
      obtain ⟨hnow, hrest⟩ := List.pairwise_cons.mp hrest
      cases run' with
      | @next _ t _ run' o' host' =>
          obtain ⟨halike, htwin⟩ := ih run' hothers hrest
          obtain ⟨hanswered, hnext⟩ := htwin.step (u := ⟨o, s, ⟨host, engine⟩⟩) hpair hnow
          exact ⟨.cons hanswered halike, hnext⟩

/-! ### Two builds, listed in two orders -/

namespace Reordered

/-- A compiler that does not look at its references. -/
def command : CompilerCommand :=
  { program := ⟨"/bin/sh"⟩, args := ["-c", "echo made > \"$4\"", "cc"] }

/-- The output is built with this compiler. -/
def toolchain : Toolchain Unit Path ParsedSource CommandUnit :=
  ⟨Command.engine command, .exiting 0⟩

/-- A host with a shell, a reference and two sources, of which one is edited. -/
def host (edited : Timestamp) : Host :=
  { files := { entries :=
      [(["bin"], .directory), (["tmp"], .directory), (["lib"], .directory),
        (["bin", "sh"], .file (Program.toolBytes "sh") .epoch true),
        (["lib", "r.dll"], .file [] ⟨1⟩ false),
        (["a.cs"], .file (Bytes.ofString "A") ⟨1⟩ false),
        (["b.cs"], .file (Bytes.ofString "B") edited false)] } }

/-- A request for files with references. -/
def request (files references : List String) : BuildOptions :=
  { workDirectory := "/", output := "out", files, references }

/-- The first turn of the first run. -/
def first : Turn Unit Path ParsedSource CommandUnit :=
  ⟨request ["a.cs", "b.cs"] ["lib/r.dll", "lib//r.dll"], {}, ⟨host ⟨1⟩, ()⟩⟩

/-- The first turn of the second run. -/
def first' : Turn Unit Path ParsedSource CommandUnit :=
  ⟨request ["b.cs", "a.cs", "b.cs"] ["lib//r.dll", "lib/r.dll"], {}, ⟨host ⟨1⟩, ()⟩⟩

/-- The second turn of the first run. A source was edited. -/
def second : Turn Unit Path ParsedSource CommandUnit :=
  first.follow toolchain (request ["b.cs", "a.cs"] ["lib/r.dll", "lib//r.dll"]) (host ⟨2⟩)

/-- The second turn of the second run. -/
def second' : Turn Unit Path ParsedSource CommandUnit :=
  first'.follow toolchain
    (request ["a.cs", "b.cs", "a.cs"] ["lib//r.dll", "lib/r.dll", "lib/r.dll"]) (host ⟨2⟩)

/-- The compilation that a turn creates, if it can. -/
def created (u : Turn Unit Path ParsedSource CommandUnit) :
    Option (Compilation Path ParsedSource CommandUnit) :=
  (Compilation.create toolchain.engine u.options u.world).1.toOption

/-- The compilation that a turn makes of the one that was created before, if it can. -/
def renewed (u v : Turn Unit Path ParsedSource CommandUnit) :
    Option (Compilation Path ParsedSource CommandUnit) :=
  (created u).bind fun c =>
    (c.update toolchain.engine v.options v.world).1.toOption.map Prod.snd

/-- A turn without a state leaves the compilation that it creates. -/
theorem leaves_created {u : Turn Unit Path ParsedSource CommandUnit}
    {c : Compilation Path ParsedSource CommandUnit} (hu : u.state = {}) (hc : created u = some c) :
    u.Took toolchain ∧ (u.outcome toolchain).state.compilation = some c := by
  have hnew : u.state.continued? u.options = none := by
    rw [hu]
    rfl
  have hcreate : Compilation.create toolchain.engine u.options u.world = (.ok c, _) :=
    Prod.ext (Task.toOption_eq_some.mp hc) rfl
  exact ⟨Turn.took_of_create hnew hcreate, Turn.compilation_of_create hnew hcreate⟩

/-- A turn after that which continues the compilation leaves what it makes of it. -/
theorem leaves_renewed {u : Turn Unit Path ParsedSource CommandUnit}
    {c' : Compilation Path ParsedSource CommandUnit} {o : BuildOptions} {h : Host}
    (hu : u.state = {}) (ho : u.options.sameIdentity o = true)
    (hc' : renewed u (u.follow toolchain o h) = some c') :
    (u.follow toolchain o h).Took toolchain ∧
      ((u.follow toolchain o h).outcome toolchain).state.compilation = some c' := by
  obtain ⟨c, hc, hupdate⟩ := Option.bind_eq_some_iff.mp hc'
  obtain ⟨htook, hleft⟩ := leaves_created hu hc
  obtain ⟨hnot, -⟩ | ⟨-, hsettled⟩ := u.settled toolchain
  · exact absurd htook hnot
  have hold : (u.follow toolchain o h).state.continued? (u.follow toolchain o h).options =
      some c := by
    rw [Turn.follow_state, OutputState.continued?, hsettled.options]
    exact (if_pos ho).trans hleft
  have hupdated : (u.follow toolchain o h).updated? toolchain = some c' := by
    rw [Turn.updated?, hold]
    exact hupdate
  exact ⟨.inr (by rw [Turn.Updated, hupdated]; rfl), (Turn.state_of_updated hupdated).1⟩

/-- Whether the compiler does the same for the units of two compilations. -/
def ranAlike (a b : Option (Compilation Path ParsedSource CommandUnit)) (w : World Unit) :
    Option Bool :=
  a.bind fun c => b.map fun d => decide (Command.Heedless command none c.unit d.unit w)

/-- The first turns create units, which spell their reference differently, and the compiler does
the same for both. -/
theorem firsts : (created first).map (fun c => c.unit.references.keys) = some [⟨"/lib/r.dll"⟩] ∧
    (created first').map (fun c => c.unit.references.keys) = some [⟨"/lib//r.dll"⟩] ∧
    ranAlike (created first) (created first') first.world = some true := by
  decide +kernel

/-- The second turns bring them up to date, and the compiler does the same again. -/
theorem seconds :
    ranAlike (renewed first second) (renewed first' second') second.world = some true := by
  simp only [ranAlike, renewed, created, Compilation.create, Compilation.createBy,
    Compilation.update, Compilation.plan, IncrementalBuild.capture, Snapshot.capture,
    Snapshot.ofStamps_eq_insertionSort]
  decide +kernel

/-- Turns on one host that list the same inputs, if the compiler was found to do the same for what
they leave. -/
theorem reorders {u v : Turn Unit Path ParsedSource CommandUnit}
    {c d : Compilation Path ParsedSource CommandUnit} (hoptions : u.options.Reorders v.options)
    (hmode : u.options.debugSymbols = .none) (hhost : u.world.host = v.world.host)
    (quiet : u.world.host.interference = [])
    (hu : u.Took toolchain ∧ (u.outcome toolchain).state.compilation = some c)
    (hv : v.Took toolchain ∧ (v.outcome toolchain).state.compilation = some d)
    (hran : Command.Heedless command none c.unit d.unit u.world) :
    u.Reorders command (.exiting 0) v := by
  refine ⟨hoptions, ?_, quiet, hu.1, hv.1, fun c' d' hc hd _ => ?_⟩
  · obtain ⟨_, _, ⟨host, _⟩⟩ := u
    obtain ⟨_, _, ⟨host', _⟩⟩ := v
    obtain rfl : host = host' := hhost
    rfl
  · obtain rfl := Option.some.inj (hu.2.symm.trans hc)
    obtain rfl := Option.some.inj (hv.2.symm.trans hd)
    rw [hmode]
    exact hran

/-- Both runs build the output twice, and list its inputs in different orders. -/
theorem pairs : List.Forall₂ (Turn.Reorders command (.exiting 0)) [second, first]
    [second', first'] := by
  obtain ⟨c, hc, hran⟩ := Option.bind_eq_some_iff.mp firsts.2.2
  obtain ⟨d, hd, hran⟩ := Option.map_eq_some_iff.mp hran
  obtain ⟨c', hc', hran'⟩ := Option.bind_eq_some_iff.mp seconds
  obtain ⟨d', hd', hran'⟩ := Option.map_eq_some_iff.mp hran'
  refine .cons (reorders ⟨?_, ?_, rfl⟩ rfl rfl rfl (leaves_renewed rfl rfl hc')
      (leaves_renewed rfl rfl hd') (of_decide_eq_true hran'))
    (.cons (reorders ⟨?_, ?_, rfl⟩ rfl rfl rfl (leaves_created rfl hc) (leaves_created rfl hd)
      (of_decide_eq_true hran)) .nil)
  all_goals
    intro name
    simp only [first, first', second, second', Turn.follow, request, List.mem_cons,
      List.not_mem_nil]
    grind

/-- No input is as old as the epoch. -/
theorem rest : [second, first].Pairwise fun later earlier => earlier.OldRest later := by
  refine List.pairwise_pair.mpr (Turn.OldRest.of_kept ?_)
  decide +kernel

/-- The two runs are answered alike in both turns. -/
theorem answered_alike : ∃ s s' engine engine',
    Run toolchain [second, first] s engine ∧ Run toolchain [second', first'] s' engine' ∧
      List.Forall₂ (Turn.AnsweredAlike toolchain) [second, first] [second', first'] := by
  have hfirst : Run toolchain [first] (first.outcome toolchain).state
      (first.outcome toolchain).world.engine := Run.first toolchain rfl
  have hfirst' : Run toolchain [first'] (first'.outcome toolchain).state
      (first'.outcome toolchain).world.engine := Run.first toolchain rfl
  have run := hfirst.follow (request ["b.cs", "a.cs"] ["lib/r.dll", "lib//r.dll"]) (host ⟨2⟩)
  have run' := hfirst'.follow
    (request ["a.cs", "b.cs", "a.cs"] ["lib//r.dll", "lib/r.dll", "lib/r.dll"]) (host ⟨2⟩)
  exact ⟨_, _, _, _, run, run', Run.reordered run run' pairs rest⟩

end Reordered
end IncrementalBuild
