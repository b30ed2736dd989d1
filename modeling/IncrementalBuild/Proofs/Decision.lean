import IncrementalBuild.Proofs.Delta
import IncrementalBuild.Proofs.FromScratch
import IncrementalBuild.Proofs.Gathering
/-!
# What a turn decides

Much of what a turn does is decided before the engine has answered: whether it continues a
compilation, what it finds to change, which inputs it asks for, whether kept bytes may answer it,
and what it has settled once it is past its inputs. All this depends on the request, on the files,
and on little of the output's state.

## Main definitions

* `Turn.plan?`, `Turn.wanted`, `Turn.looked` — what a turn finds to change, which inputs it asks the
  engine for, and the world by then.
* `Turn.promised` — the report that a turn makes if it gets that far.
* `Turn.Performs` — the changes of a unit that a turn makes.
* `Turn.CallsExactly` — the calls that a turn makes before it emits.
* `Turn.Took`, `Turn.Settled` — the turn got past its inputs, and what it left then.
* `OutputState.Alike` — states that decide alike.
* `SameCourse` — what two turns have in common that decide alike.

## Main results

* `Turn.callsExactly_of_prepared` — the calls that a turn makes whose inputs are all gathered.
* `Turn.performs_of_not_updated`, `Turn.performs_of_updated` — the changes that a turn makes.
* `Turn.report?_eq` — a turn reports what it promised.
* `Turn.settled` — what a turn leaves.
* `SameCourse.of_alike` — turns that meet alike states take the same course.
-/

namespace IncrementalBuild

variable {σ ρ φ υ : Type}

/-- An update fails while its handles are got, and at no other time. -/
theorem Compilation.update_eq_error {c : Compilation ρ φ υ} {engine : Engine σ ρ φ υ}
    {o : BuildOptions} {w w' : World σ} {e : Failure} (h : c.update engine o w = (.error e, w')) :
    ∃ plan w₁, c.plan o w = (.ok plan, w₁) ∧ plan.prepare engine o w₁ = (.error e, w') := by
  rcases Task.bind_eq_error h with hplan | ⟨plan, w₁, hplan, h⟩
  · exact absurd (congrArg Prod.fst hplan) (by simp [plan, capture, Task.bind_apply, Task.onHost])
  · rcases Task.bind_eq_error h with hprepare | ⟨fresh, w₂, -, h⟩
    · exact ⟨plan, w₁, hplan, hprepare⟩
    · exact absurd (congrArg Prod.fst h) (by simp [Task.bind_apply, apply, Task.onEngine])

/-! ### What a turn asks for -/

namespace Turn

/-- What a turn that continues a compilation finds to change. -/
def plan? (u : Turn σ ρ φ υ) : Option Plan :=
  (u.state.continued? u.options).map fun c => {
    references := c.referenceBaseline.changesTo u.references
    sources := c.sourceBaseline.changesTo u.sources
    referenceSnapshot := u.references
    sourceSnapshot := u.sources }

/-- The references and the sources that a turn asks its engine for: the touched ones, or all of them
if it builds in full. -/
def wanted (u : Turn σ ρ φ υ) : List Path × List Path :=
  match u.plan? with
  | some plan => (plan.references.touched, plan.sources.touched)
  | none => (distinct u.options.referencePaths, distinct u.options.sourcePaths)

/-- The world once a turn has looked at all its files. -/
def looked (u : Turn σ ρ φ υ) : World σ :=
  match u.plan? with
  | some _ =>
    ⟨(u.world.host.elapse u.options.referencePaths.length).elapse u.options.sourcePaths.length,
      u.world.engine⟩
  | none =>
    ⟨(u.world.host.elapse (distinct u.options.referencePaths).length).elapse
      (distinct u.options.sourcePaths).length, u.world.engine⟩

variable {t : Toolchain σ ρ φ υ} {u : Turn σ ρ φ υ} {c : Compilation ρ φ υ}

/-- A turn that builds in full has no plan. -/
theorem plan?_eq_none (hnew : u.state.continued? u.options = none) : u.plan? = none := by
  rw [plan?, hnew, Option.map_none]

/-- A turn that continues a compilation finds its plan with the first looks. -/
theorem exists_plan (hold : u.state.continued? u.options = some c) :
    ∃ plan, u.plan? = some plan ∧ c.plan u.options u.world = (.ok plan, u.looked) := by
  have hplan := congrArg (Option.map fun c : Compilation ρ φ υ => ({
    references := c.referenceBaseline.changesTo u.references
    sources := c.sourceBaseline.changesTo u.sources
    referenceSnapshot := u.references
    sourceSnapshot := u.sources } : Plan)) hold
  refine ⟨_, hplan, ?_⟩
  rw [looked, plan?, hplan]
  dsimp only [Option.map_some]
  rw [← Snapshot.capture_snd u.options.workDir u.options.referencePaths,
    ← Snapshot.capture_snd u.options.workDir u.options.sourcePaths]
  rfl

/-- A turn brings a compilation up to date when it continues one and gets past its inputs. -/
theorem updated_iff : u.Updated t ↔ ∃ c c' plan w', u.state.continued? u.options = some c ∧
    c.update t.engine u.options u.world = (.ok (plan, c'), w') := by
  rw [Updated, Option.isSome_iff_exists]
  constructor
  · rintro ⟨c', hc'⟩
    obtain ⟨c, plan, w', old, update⟩ := updated?_eq_some_iff.mp hc'
    exact ⟨c, c', plan, w', old, update⟩
  · rintro ⟨c, c', plan, w', old, update⟩
    exact ⟨c', updated?_eq_some_iff.mpr ⟨c, plan, w', old, update⟩⟩

/-- The plan of an update is the one that the turn found. -/
theorem plan?_of_update {c' : Compilation ρ φ υ} {plan : Plan} {w' : World σ}
    (old : u.state.continued? u.options = some c)
    (update : c.update t.engine u.options u.world = (.ok (plan, c'), w')) :
    u.plan? = some plan := by
  obtain ⟨found, hfound, hlooked⟩ := exists_plan old
  obtain ⟨_, _, _, hplan, -⟩ := Compilation.update_eq_ok update
  obtain rfl := Except.ok.inj (Prod.mk.inj (hlooked.symm.trans hplan)).1
  exact hfound

/-- What a turn that builds in full has looked at. -/
theorem looked_of_new (hnew : u.state.continued? u.options = none) :
    u.looked = ⟨(Snapshot.capture u.options.workDir (distinct u.options.sourcePaths)
      (Snapshot.capture u.options.workDir (distinct u.options.referencePaths)
        u.world.host).2).2, u.world.engine⟩ := by
  rw [looked, plan?_eq_none hnew, Snapshot.capture_snd, Snapshot.capture_snd]

/-- Looking at its files leaves the order in which a turn takes up references. -/
@[simp] theorem resolving_looked (u : Turn σ ρ φ υ) :
    u.looked.host.resolving = u.world.host.resolving := by
  rw [looked]
  split <;> simp

/-- Looking at its files leaves the order in which a turn takes up sources. -/
@[simp] theorem parsing_looked (u : Turn σ ρ φ υ) :
    u.looked.host.parsing = u.world.host.parsing := by
  rw [looked]
  split <;> simp

/-- Looking at its files leaves what a turn asks for, and in which order. -/
theorem asks_looked (u : Turn σ ρ φ υ) (plan : Plan) (o : BuildOptions) :
    (plan.asks u.looked.host o : List (EngineCall ρ φ)) = plan.asks u.world.host o := by
  rw [Plan.asks, Plan.asks, resolving_looked, parsing_looked]

/-- What a turn that builds in full asks for. -/
theorem wanted_of_new (hnew : u.state.continued? u.options = none) :
    u.wanted = (distinct u.options.referencePaths, distinct u.options.sourcePaths) := by
  rw [wanted, plan?_eq_none hnew]

end Turn

/-! ### What a turn changes -/

/-- Calls of a kind that changes no unit leave the changes in a ledger as they are. -/
theorem World.Adds.changes_eq {kind : EngineCall ρ φ → Bool} {w w' : World (Ledger σ ρ φ)}
    (h : w.Adds kind w') (hkind : ∀ call, kind call = true → call.changes = false) :
    w'.engine.calls.filter EngineCall.changes = w.engine.calls.filter EngineCall.changes := by
  obtain ⟨made, hmade, hall⟩ := h
  have hnone : made.filter EngineCall.changes = [] :=
    List.filter_eq_nil_iff.mpr fun call hcall => by simp [hkind call (hall call hcall)]
  rw [hmade, List.filter_append, hnone, List.append_nil]

/-- A call that gathers changes no unit. -/
theorem EngineCall.changes_of_gathers (call : EngineCall ρ φ) (h : call.gathers = true) :
    call.changes = false := by
  cases call <;> first | rfl | exact absurd h (by simp [gathers, asks])

/-- A call that asks for a handle changes no unit. -/
theorem EngineCall.changes_of_asks (call : EngineCall ρ φ) (h : call.asks = true) :
    call.changes = false :=
  changes_of_gathers call (gathers_of_asks h)

/-- Fresh handles for every path that a plan touches. -/
def Fresh.Covers (fresh : Fresh ρ φ) (plan : Plan) : Prop :=
  (∀ p ∈ plan.references.touched, ∃ y, fresh.references.find? p = some y) ∧
    ∀ p ∈ plan.sources.touched, ∃ y, fresh.sources.find? p = some y

/-- The calls of a plan all change a unit. -/
theorem Plan.changes_calls (plan : Plan) (c : Compilation ρ φ υ) (fresh : Fresh ρ φ) :
    (plan.calls c fresh).filter EngineCall.changes = plan.calls c fresh := by
  refine List.filter_eq_self.mpr fun call hcall => ?_
  simp only [calls, Changes.calls, PathMap.callFor, List.mem_append, List.mem_flatMap,
    Option.mem_toList, Option.map_eq_some_iff] at hcall
  rcases hcall with (⟨p, -, ⟨y, -, rfl⟩ | ⟨y, -, rfl⟩⟩ | ⟨p, -, y, -, rfl⟩) |
    ⟨p, -, ⟨y, -, rfl⟩ | ⟨y, -, rfl⟩⟩ | ⟨p, -, y, -, rfl⟩ <;> rfl

/-- The calls that ask for the handles of a plan change no unit. -/
theorem Plan.changes_asks (plan : Plan) (h : Host) (o : BuildOptions) :
    (plan.asks h o : List (EngineCall ρ φ)).filter EngineCall.changes = [] := by
  refine List.filter_eq_nil_iff.mpr fun call hcall => ?_
  simp only [asks, List.mem_append, List.mem_map] at hcall
  rcases hcall with ⟨p, -, rfl⟩ | ⟨p, -, rfl⟩ <;> exact Bool.false_ne_true

/-- Emitting a unit makes no other calls than emits. -/
theorem OutputState.emitUnit_adds (t : Toolchain σ ρ φ υ) (o : BuildOptions)
    (unit : Labelled υ) (report : Report) (s : OutputState ρ φ (Labelled υ))
    (w : World (Ledger σ ρ φ)) :
    w.Adds EngineCall.emits (emitUnit t.watched o unit report s w).world := by
  have hemit : Task.Calls EngineCall.emits (emit t.watched unit o) := by
    refine Task.Along.bind (Task.Calls.watchTask (fun _ => rfl) _) fun output => ?_
    refine (Task.Calls.onHost _).bind fun _ => (Task.Calls.onHost _).bind fun written => ?_
    dsimp only
    split
    · exact (Task.Calls.onHost _).bind fun _ => Task.Along.pure _
    · exact (Task.Along.pure _).bind fun _ => Task.Along.pure _
  have hworld : (emitUnit t.watched o unit report s w).world = (emit t.watched unit o w).2 := by
    rw [emitUnit]
    split
    · next e w' he => rw [he]
    · next w' he => rw [he]
    · next e w' he => rw [he]
  rw [hworld]
  exact hemit w

/-- A call that emits a unit changes none. -/
theorem EngineCall.changes_of_emits (call : EngineCall ρ φ) (h : call.emits = true) :
    call.changes = false := by
  cases call <;> first | rfl | exact absurd h (by simp [emits, emission?])

/-- Emitting a unit changes none. -/
theorem OutputState.emitUnit_changes (t : Toolchain σ ρ φ υ) (o : BuildOptions)
    (unit : Labelled υ) (report : Report) (s : OutputState ρ φ (Labelled υ))
    (w : World (Ledger σ ρ φ)) :
    (emitUnit t.watched o unit report s w).world.engine.calls.filter EngineCall.changes =
      w.engine.calls.filter EngineCall.changes :=
  (emitUnit_adds t o unit report s w).changes_eq EngineCall.changes_of_emits

namespace Turn

/-- The changes of a unit that a turn makes: the calls that its engine, watched, gets for them. -/
def Performs (t : Toolchain σ ρ φ υ) (u : Turn σ ρ φ υ) (calls : List (EngineCall ρ φ)) : Prop :=
  ∀ watched : Turn (Ledger σ ρ φ) ρ φ (Labelled υ), watched.plain = u →
    (watched.outcome t.watched).world.engine.calls.filter EngineCall.changes =
      watched.world.engine.calls.filter EngineCall.changes ++ calls

variable {t : Toolchain σ ρ φ υ} {u : Turn σ ρ φ υ}
  {watched : Turn (Ledger σ ρ φ) ρ φ (Labelled υ)}

/-- Every turn can be watched. -/
theorem exists_watched (u : Turn σ ρ φ υ) :
    ∃ watched : Turn (Ledger σ ρ φ) ρ φ (Labelled υ), watched.plain = u := by
  obtain ⟨o, s, w⟩ := u
  refine ⟨⟨o, { s with compilation := s.compilation.map fun c => { c with unit := ⟨c.unit, {}⟩ } },
    ⟨w.host, ⟨w.engine, []⟩⟩⟩, ?_⟩
  have hunits : (s.compilation.map fun c => { c with unit := Labelled.mk c.unit {} }).map
      Compilation.plain = s.compilation := by
    rw [Option.map_map]
    exact Option.map_id'
  rw [plain, OutputState.plain, hunits]
  rfl

/-- The changes that a turn makes are determined. -/
theorem Performs.unique {calls calls' : List (EngineCall ρ φ)} (h : u.Performs t calls)
    (h' : u.Performs t calls') : calls = calls' := by
  obtain ⟨watched, hwatched⟩ := u.exists_watched
  exact List.append_cancel_left ((h watched hwatched).symm.trans (h' watched hwatched))

/-- A watched turn continues what the turn itself continues. -/
theorem continued?_plain (watched : Turn (Ledger σ ρ φ) ρ φ (Labelled υ)) :
    watched.plain.state.continued? watched.plain.options =
      (watched.state.continued? watched.options).map Compilation.plain := by
  rw [OutputState.continued?, OutputState.continued?, plain, OutputState.plain]
  dsimp only
  split
  · split <;> rfl
  · rfl

/-- A watched turn brings a compilation up to date when the turn itself does. -/
theorem updated_plain (t : Toolchain σ ρ φ υ) (watched : Turn (Ledger σ ρ φ) ρ φ (Labelled υ)) :
    watched.plain.Updated t ↔ watched.Updated t.watched := by
  rw [Updated, Updated, updated?, updated?, continued?_plain]
  rcases watched.state.continued? watched.options with _ | c
  · rfl
  · have hupdate := Engine.follows_update t.engine watched.options c watched.world
    have hplain : c.plain.update t.engine watched.plain.options watched.plain.world = _ := hupdate
    rw [Option.map_some, Option.bind_some, Option.bind_some, hplain]
    rw [← Toolchain.watched_engine]
    rcases c.update t.watched.engine watched.options watched.world with ⟨e | r, w'⟩ <;> rfl

/-- **No change.** A turn that brings no compilation up to date changes no unit. -/
theorem performs_of_not_updated (h : ¬ u.Updated t) : u.Performs t [] := by
  rintro watched rfl
  rw [updated_plain] at h
  rw [List.append_nil]
  have hcourse : Course t.watched watched.options watched.state watched.world
      (watched.outcome t.watched) := OutputState.course_build _ _ _ _
  generalize watched.outcome t.watched = out at hcourse
  cases hcourse with
  | @unfounded e w' new create =>
      have hcalls := Engine.calls_create t.engine watched.options watched.world
      rw [← Toolchain.watched_engine, create] at hcalls
      exact hcalls.changes_eq EngineCall.changes_of_gathers
  | @founded c w' new create =>
      have hcalls := Engine.calls_create t.engine watched.options watched.world
      rw [← Toolchain.watched_engine, create] at hcalls
      rw [OutputState.emitUnit_changes]
      exact hcalls.changes_eq EngineCall.changes_of_gathers
  | @stuck c e w' old update =>
      obtain ⟨plan, w₁, hplan, hprepare⟩ := Compilation.update_eq_error update
      obtain ⟨references, sources, -, -, -, rfl⟩ := Compilation.plan_eq_ok hplan
      have hcalls := Engine.calls_prepare t.engine watched.options plan
        ⟨sources.2, watched.world.engine⟩
      rw [← Toolchain.watched_engine, hprepare] at hcalls
      exact hcalls.changes_eq EngineCall.changes_of_asks
  | emitted old update => exact absurd (updated_iff.mpr ⟨_, _, _, _, old, update⟩) h
  | reused old update => exact absurd (updated_iff.mpr ⟨_, _, _, _, old, update⟩) h

/-- The calls that a turn makes, but for emits after them. -/
def CallsExactly (t : Toolchain σ ρ φ υ) (u : Turn σ ρ φ υ) (calls : List (EngineCall ρ φ)) :
    Prop :=
  ∀ watched : Turn (Ledger σ ρ φ) ρ φ (Labelled υ), watched.plain = u →
    ∃ emits, (∀ call ∈ emits, call.emits = true) ∧
      (watched.outcome t.watched).world.engine.calls =
        watched.world.engine.calls ++ calls ++ emits

/-- The changes of a unit are among the calls that a turn makes. -/
theorem CallsExactly.performs {calls : List (EngineCall ρ φ)} (h : u.CallsExactly t calls) :
    u.Performs t (calls.filter EngineCall.changes) := by
  intro watched hwatched
  obtain ⟨emits, hemits, hcalls⟩ := h watched hwatched
  have hnone : emits.filter EngineCall.changes = [] :=
    List.filter_eq_nil_iff.mpr fun call hcall => by
      simp [EngineCall.changes_of_emits call (hemits call hcall)]
  rw [hcalls, List.filter_append, List.filter_append, hnone, List.append_nil]

/-- A watched turn brings a compilation up to date with the calls that the turn itself asks for. -/
theorem exists_update_watched {c : Compilation ρ φ υ} {plan : Plan} {fresh : Fresh ρ φ}
    {previous : BuildOptions} {w : World σ}
    (hold : watched.plain.state.continued? watched.options = some c) (hc : c.InStep previous)
    (hplan : c.plan watched.options watched.world.plain = (.ok plan, watched.plain.looked))
    (hprepare : plan.prepare t.engine watched.options watched.plain.looked = (.ok fresh, w)) :
    ∃ cw cw' w', watched.state.continued? watched.options = some cw ∧
      cw.update t.watched.engine watched.options watched.world = (.ok (plan, cw'), w') ∧
      w'.engine.calls = watched.world.engine.calls ++
        (plan.asks watched.world.host watched.options ++ plan.calls c fresh) := by
  obtain ⟨cw, hcw, rfl⟩ := Option.map_eq_some_iff.mp ((continued?_plain watched).symm.trans hold)
  obtain ⟨found, v₁, hfound, hsame, hv₁⟩ := (Engine.follows_plan watched.options cw).exists_eq_ok
    (w := watched.world) hplan
  obtain rfl : found = plan := hsame
  rw [← hv₁] at hprepare
  obtain ⟨handles, v₂, hhandles, hsame, -⟩ := (Engine.follows_prepare t.engine watched.options
    found).exists_eq_ok (w := v₁) hprepare
  obtain rfl : handles = fresh := hsame
  obtain ⟨cw', v₃, happly⟩ : ∃ cw' v₃,
      cw.apply t.engine.watched found handles v₂ = (.ok cw', v₃) := ⟨_, _, rfl⟩
  refine ⟨cw, cw', v₃, hcw, ?_, ?_⟩
  · rw [Toolchain.watched_engine]
    exact Compilation.update_of_steps hfound hhandles happly
  · have hmade := Compilation.calls_apply ⟨hc.references, hc.sources⟩ hfound hhandles v₂
    obtain ⟨references, sources, -, -, -, hworld⟩ := Compilation.plan_eq_ok hfound
    rw [happly] at hmade
    have hhost : v₁.host = watched.plain.looked.host := congrArg World.host hv₁
    rw [hmade, Engine.calls_of_prepare hhandles, hhost, asks_looked, hworld, List.append_assoc]
    rfl

/-- **Calls.** A turn that continues a compilation in step, and whose inputs are all gathered, asks
for what its plan touches and then makes the changes that the plan asks for. -/
theorem callsExactly_of_prepared {c : Compilation ρ φ υ} {plan : Plan} {fresh : Fresh ρ φ}
    {previous : BuildOptions} {w : World σ} (hold : u.state.continued? u.options = some c)
    (hc : c.InStep previous) (hplan : u.plan? = some plan)
    (hprepare : plan.prepare t.engine u.options u.looked = (.ok fresh, w)) :
    u.CallsExactly t (plan.asks u.world.host u.options ++ plan.calls c fresh) := by
  obtain ⟨_, hplan', hlooked⟩ := exists_plan hold
  obtain rfl := Option.some.inj (hplan.symm.trans hplan')
  rintro watched rfl
  obtain ⟨cw, cw', w', hcw, hupdate, hcalls⟩ := exists_update_watched hold hc hlooked hprepare
  rw [show watched.plain.options = watched.options from rfl,
    show watched.plain.world.host = watched.world.host from rfl, ← hcalls]
  obtain houtcome | ⟨k, houtcome⟩ := outcome_of_update hcw hupdate
  · obtain ⟨emits, hemits, hall⟩ := OutputState.emitUnit_adds t watched.options cw'.unit
      (plan.report .emitted) (watched.state.advance watched.options cw') w'
    exact ⟨emits, hall, by rw [houtcome, hemits]⟩
  · refine ⟨[], by simp, ?_⟩
    rw [houtcome, (OutputState.reuse_frame _ _ _ _ _).2, List.append_nil]

/-- **Change.** A turn that brings a compilation in step up to date makes the changes that its plan
asks for, with a fresh handle for every touched path. -/
theorem performs_of_updated {c : Compilation ρ φ υ} {plan : Plan} {previous : BuildOptions}
    (hold : u.state.continued? u.options = some c) (hc : c.InStep previous)
    (hplan : u.plan? = some plan) (h : u.Updated t) :
    ∃ fresh : Fresh ρ φ, fresh.Covers plan ∧ u.Performs t (plan.calls c fresh) := by
  obtain ⟨_, c', _, w₃, hold', hupdate⟩ := updated_iff.mp h
  obtain rfl := Option.some.inj (hold.symm.trans hold')
  obtain ⟨fresh, w₁, w₂, hlooked, hprepare, -⟩ := Compilation.update_eq_ok hupdate
  obtain ⟨_, hplan', hlooked'⟩ := exists_plan hold
  obtain rfl := Option.some.inj (hplan.symm.trans hplan')
  obtain ⟨heq, rfl⟩ := Prod.mk.inj (hlooked'.symm.trans hlooked)
  obtain rfl := Except.ok.inj heq
  refine ⟨fresh, Plan.prepare_eq_ok hprepare, ?_⟩
  have hperforms := (callsExactly_of_prepared hold hc hplan hprepare).performs
  rw [List.filter_append, Plan.changes_asks, Plan.changes_calls, List.nil_append] at hperforms
  exact hperforms

/-! ### What a turn reports -/

/-- The report that a turn makes if it gets that far. -/
def promised (u : Turn σ ρ φ υ) : Report :=
  match u.plan? with
  | some plan =>
    plan.report (if (u.state.reusable? u.options plan.references plan.sources).isSome then .reused
      else .emitted)
  | none => { kind := .full, source := .emitted }

/-- A turn reports what it promised. -/
theorem report?_eq {r : Report} (h : u.report? t = some r) : r = u.promised := by
  have hcourse := OutputState.course_build t u.options { u.state with report := none } u.world
  rw [report?] at h
  generalize ({ u.state with report := none } : OutputState ρ φ υ).build t u.options u.world =
    out at hcourse h
  cases hcourse with
  | unfounded => exact absurd h (by simp)
  | stuck => exact absurd h (by simp)
  | @founded c w' new =>
      obtain ⟨kept, after, hstate, rfl | rfl⟩ := OutputState.emitUnit_frame t u.options c.unit
        { kind := .full, source := .emitted }
        (OutputState.found { u.state with report := none } u.options c) w'
      · rw [hstate] at h
        obtain rfl := Option.some.inj h
        rw [promised, plan?_eq_none new]
      · rw [hstate] at h
        exact absurd h (by simp [OutputState.found])
  | @emitted c c' plan w' old update changed =>
      have hplan := plan?_of_update old update
      obtain ⟨kept, after, hstate, rfl | rfl⟩ := OutputState.emitUnit_frame t u.options c'.unit
        (Plan.report _ .emitted)
        (OutputState.advance { u.state with report := none } u.options c') w'
      · rw [hstate] at h
        obtain rfl := Option.some.inj h
        rw [promised, hplan]
        dsimp only
        rw [show u.state.reusable? u.options _ _ = none from changed]
        rfl
      · rw [hstate] at h
        exact absurd h (by simp [OutputState.advance])
  | @reused c c' plan w' k old update unchanged =>
      have hplan := plan?_of_update old update
      rw [(OutputState.reuse_frame _ _ _ _ _).1] at h
      obtain rfl := Option.some.inj h
      rw [promised, hplan]
      dsimp only
      rw [show u.state.reusable? u.options _ _ = some k from unchanged]
      rfl

/-- A turn is answered with kept bytes if it brings a compilation up to date and promised so. -/
theorem reused_iff_promised : u.Reused t ↔ u.Updated t ∧ u.promised.source = .reused := by
  rw [reused_iff]
  constructor
  · rintro ⟨c, c', plan, w', k, old, update, unchanged⟩
    refine ⟨updated_iff.mpr ⟨c, c', plan, w', old, update⟩, ?_⟩
    rw [← report?_eq (report?_of_reusable old update unchanged), Plan.report]
  · rintro ⟨hupdated, hsource⟩
    obtain ⟨c, c', plan, w', old, update⟩ := updated_iff.mp hupdated
    rw [promised, plan?_of_update old update] at hsource
    dsimp only [Plan.report] at hsource
    split at hsource
    · next hk =>
        obtain ⟨k, hk⟩ := Option.isSome_iff_exists.mp hk
        exact ⟨c, c', plan, w', k, old, update, hk⟩
    · exact absurd hsource (by simp)

end Turn

/-- Every compilation of a run is in step with a request. -/
theorem Run.inStep {t : Toolchain σ ρ φ υ} {turns : List (Turn σ ρ φ υ)} {s : OutputState ρ φ υ}
    {engine : σ} (run : Run t turns s engine) {c : Compilation ρ φ υ}
    (hc : s.compilation = some c) : ∃ o, c.InStep o := by
  induction run generalizing c with
  | start => exact absurd hc (by simp)
  | @next turns s engine run o host ih =>
      have hcourse := OutputState.course_build t o s ⟨host, engine⟩
      generalize s.build t o ⟨host, engine⟩ = out at hcourse hc
      cases hcourse with
      | unfounded => exact ih hc
      | stuck => exact ih hc
      | @founded c' w' new create =>
          obtain ⟨kept, after, hstate, -⟩ := OutputState.emitUnit_frame t o c'.unit
            { kind := .full, source := .emitted } (s.found o c') w'
          rw [hstate] at hc
          obtain rfl : c' = c := Option.some.inj hc
          exact ⟨o, Compilation.inStep_of_create create⟩
      | @emitted old c' plan w' continued update changed =>
          obtain ⟨kept, after, hstate, -⟩ := OutputState.emitUnit_frame t o c'.unit
            (plan.report .emitted) (s.advance o c') w'
          rw [hstate] at hc
          obtain rfl : c' = c := Option.some.inj hc
          obtain ⟨_, -, -, hold⟩ := OutputState.continued?_eq_some continued
          obtain ⟨previous, hstep⟩ := ih hold
          exact ⟨o, hstep.update update⟩
      | @reused old c' plan w' k continued update unchanged =>
          rw [(OutputState.reuse_frame _ _ _ _ _).1] at hc
          obtain rfl : c' = c := Option.some.inj hc
          obtain ⟨_, -, -, hold⟩ := OutputState.continued?_eq_some continued
          obtain ⟨previous, hstep⟩ := ih hold
          exact ⟨o, hstep.update update⟩

/-! ### What a turn leaves -/

/-- The baselines of a state. -/
def OutputState.baselines? (s : OutputState ρ φ υ) : Option (Baseline × Baseline) :=
  s.compilation.map fun c => (c.referenceBaseline, c.sourceBaseline)

/-- An emit keeps bytes for the mode of its request. -/
theorem OutputState.emitUnit_mode {t : Toolchain σ ρ φ υ} {o : BuildOptions} {unit : υ}
    {report : Report} {s : OutputState ρ φ υ} {w : World σ} {k : KeptOutput}
    (h : (emitUnit t o unit report s w).state.kept = some k) : k.mode = o.debugSymbols := by
  rw [emitUnit] at h
  split at h
  · next e w' hemit =>
      rcases hengine : t.engine.emit unit o.debugSymbols.emitFormat? w with ⟨e' | output, v⟩
      · exact absurd ((emit_eq_of_error hengine).symm.trans hemit) (by simp)
      · exact (((emit_of_ok hengine).2 e w' hemit).kept k h).2.2
  · exact absurd h (by simp)
  · exact absurd h (by simp)

namespace Turn

/-- The baselines that a turn sets once it is past its inputs. -/
def renewed (u : Turn σ ρ φ υ) : Baseline × Baseline :=
  match u.plan? with
  | some plan => (⟨some plan.referenceSnapshot⟩, ⟨some plan.sourceSnapshot⟩)
  | none =>
    let references :=
      Snapshot.capture u.options.workDir (distinct u.options.referencePaths) u.world.host
    let sources :=
      Snapshot.capture u.options.workDir (distinct u.options.sourcePaths) references.2
    (⟨some references.1⟩, ⟨some sources.1⟩)

/-- A turn that got past its inputs: it created a compilation or brought one up to date. -/
def Took (t : Toolchain σ ρ φ υ) (u : Turn σ ρ φ υ) : Prop := u.Founded t ∨ u.Updated t

/-- What a turn leaves that got past its inputs. -/
structure Settled (u : Turn σ ρ φ υ) (s : OutputState ρ φ υ) : Prop where
  options : s.options = some u.options
  baselines : s.baselines? = some u.renewed
  kept : ∀ k, s.kept = some k → k.mode = u.options.debugSymbols

variable {t : Toolchain σ ρ φ υ} {u : Turn σ ρ φ υ}

/-- A turn that continues a compilation renews its baselines with what it found. -/
theorem renewed_of_update {c c' : Compilation ρ φ υ} {plan : Plan} {w' : World σ}
    (old : u.state.continued? u.options = some c)
    (update : c.update t.engine u.options u.world = (.ok (plan, c'), w')) :
    (c'.referenceBaseline, c'.sourceBaseline) = u.renewed := by
  obtain ⟨fresh, _, _, -, -, happly⟩ := Compilation.update_eq_ok update
  rw [Compilation.apply, Task.onEngine, Prod.mk.injEq] at happly
  obtain rfl := Except.ok.inj happly.1
  rw [renewed, plan?_of_update old update]
  rfl

/-- **What a turn leaves.** Either a turn did not get past its inputs, and then it leaves the state;
or it leaves its own request and what it found. -/
theorem settled (t : Toolchain σ ρ φ υ) (u : Turn σ ρ φ υ) :
    ¬ u.Took t ∧ (u.outcome t).state = u.state ∨
      u.Took t ∧ u.Settled (u.outcome t).state := by
  have hcourse : Course t u.options u.state u.world (u.outcome t) :=
    OutputState.course_build t u.options u.state u.world
  rw [Took, Founded]
  generalize u.outcome t = out at hcourse
  cases hcourse with
  | unfounded new =>
      refine .inl ⟨?_, rfl⟩
      rintro (h | h)
      · exact h rfl
      · obtain ⟨_, _, _, _, old, -⟩ := updated_iff.mp h
        exact absurd (old.symm.trans new) (by simp)
  | stuck old update =>
      refine .inl ⟨?_, rfl⟩
      rintro (h | h)
      · exact h rfl
      · obtain ⟨_, _, _, _, old', update'⟩ := updated_iff.mp h
        obtain rfl := Option.some.inj (old.symm.trans old')
        exact absurd (update.symm.trans update') (by simp)
  | @founded c w' new create =>
      obtain ⟨kept, after, hstate, -⟩ := OutputState.emitUnit_frame t u.options c.unit
        { kind := .full, source := .emitted } (u.state.found u.options c) w'
      obtain ⟨references, sources, -, -, -, -, rfl, rfl, -, -, -, -, -, hcommitted⟩ :=
        Compilation.create_eq_ok create
      refine .inr ⟨.inl ?_, ?_, ?_, fun k hk => OutputState.emitUnit_mode hk⟩
      · rw [hstate]
        exact Nat.succ_ne_self _
      · rw [hstate]
        rfl
      · rw [hstate, renewed, plan?_eq_none new]
        have hreferences : c.referenceBaseline = ⟨some _⟩ :=
          congrArg Baseline.mk hcommitted.references_eq
        have hsources : c.sourceBaseline = ⟨some _⟩ :=
          congrArg Baseline.mk hcommitted.sources_eq
        rw [OutputState.baselines?]
        dsimp only [OutputState.found, Option.map_some]
        rw [hreferences, hsources]
  | @emitted c c' plan w' old update changed =>
      obtain ⟨kept, after, hstate, -⟩ := OutputState.emitUnit_frame t u.options c'.unit
        (plan.report .emitted) (u.state.advance u.options c') w'
      refine .inr ⟨.inr (updated_iff.mpr ⟨c, c', plan, w', old, update⟩), ?_, ?_,
        fun k hk => OutputState.emitUnit_mode hk⟩
      · rw [hstate]
        rfl
      · rw [hstate, ← renewed_of_update old update]
        rfl
  | @reused c c' plan w' k old update unchanged =>
      have hstate := (OutputState.reuse_frame u.options k (plan.report .reused)
        (u.state.advance u.options c') w').1
      refine .inr ⟨.inr (updated_iff.mpr ⟨c, c', plan, w', old, update⟩), ?_, ?_, ?_⟩
      · rw [hstate]
        rfl
      · rw [hstate, ← renewed_of_update old update]
        rfl
      · obtain ⟨-, hkept, hmode⟩ := OutputState.reusable?_eq_some unchanged
        rw [hstate]
        intro k' hk'
        obtain rfl := Option.some.inj (hkept.symm.trans hk')
        exact hmode

/-- A turn that ends with a result got past its inputs. -/
theorem took_of_ok {r : BuildResult} (hr : (u.outcome t).result = .ok r) : u.Took t := by
  have hcourse : Course t u.options u.state u.world (u.outcome t) :=
    OutputState.course_build t u.options u.state u.world
  rw [Took, Founded]
  generalize u.outcome t = out at hcourse hr
  cases hcourse with
  | unfounded => exact absurd hr (by simp)
  | stuck => exact absurd hr (by simp)
  | @founded c w' new create =>
      obtain ⟨kept, after, hstate, -⟩ := OutputState.emitUnit_frame t u.options c.unit
        { kind := .full, source := .emitted } (u.state.found u.options c) w'
      refine .inl ?_
      rw [hstate]
      exact Nat.succ_ne_self _
  | emitted old update => exact .inr (updated_iff.mpr ⟨_, _, _, _, old, update⟩)
  | reused old update => exact .inr (updated_iff.mpr ⟨_, _, _, _, old, update⟩)

end Turn

/-! ### Turns that decide alike -/

/-- States that decide alike: what requests are compared with is the same, and so is what the kept
bytes can answer. -/
structure OutputState.Alike (s s' : OutputState ρ φ υ) : Prop where
  options : s.options = s'.options
  baselines : s.baselines? = s'.baselines?
  kept : s.kept.map KeptOutput.mode = s'.kept.map KeptOutput.mode

/-- A state decides like itself. -/
theorem OutputState.Alike.refl (s : OutputState ρ φ υ) : s.Alike s := ⟨rfl, rfl, rfl⟩

/-- Whether kept bytes are reused depends on their mode. -/
theorem OutputState.reusable?_isSome (s : OutputState ρ φ υ) (o : BuildOptions)
    (references sources : Changes) : (s.reusable? o references sources).isSome =
      (o.outputReuse.allows references sources &&
        (s.kept.map KeptOutput.mode).any (· == o.debugSymbols)) := by
  rw [reusable?]
  split
  · next h =>
      rw [h, Bool.true_and]
      cases s.kept with
      | none => rfl
      | some k => cases hk : k.fits o <;> simp_all [KeptOutput.fits, Option.filter]
  · next h =>
      rw [Bool.not_eq_true] at h
      rw [h, Bool.false_and, Option.isSome_none]

/-- What two turns have in common that decide alike. -/
structure SameCourse (t : Toolchain σ ρ φ υ) (a b : Turn σ ρ φ υ) : Prop where
  /-- They both build in full, or find the same to change. -/
  plan : a.plan? = b.plan?
  /-- They ask the engine for the same inputs. -/
  wanted : a.wanted = b.wanted
  /-- They report the same, if they get that far. -/
  report : ∀ r r', a.report? t = some r → b.report? t = some r' → r = r'
  /-- They make no changes unless they bring a compilation up to date. -/
  unchanged : ∀ u ∈ [a, b], ¬ u.Updated t → u.Performs t []
  /-- When they do they make the changes that their plan asks for. -/
  changed : ∀ u ∈ [a, b], u.Updated t → ∃ c plan, ∃ fresh : Fresh ρ φ,
    u.state.continued? u.options = some c ∧ a.plan? = some plan ∧ fresh.Covers plan ∧
      u.Performs t (plan.calls c fresh)
  /-- Then they also agree on whether kept bytes are the answer. -/
  reused : a.Updated t → b.Updated t → (a.Reused t ↔ b.Reused t)

namespace SameCourse

variable {t : Toolchain σ ρ φ υ} {a b : Turn σ ρ φ υ}

/-- The plan of a turn depends on its request, its files and the baselines. -/
theorem plan?_congr (ho : a.options = b.options) (hs : a.state.Alike b.state)
    (hh : a.world.host = b.world.host) : a.plan? = b.plan? := by
  have hplan : ∀ u : Turn σ ρ φ υ, u.plan? = (u.state.options.bind fun previous =>
      if previous.sameIdentity u.options then u.state.baselines?.map fun baselines => {
        references := baselines.1.changesTo u.references
        sources := baselines.2.changesTo u.sources
        referenceSnapshot := u.references
        sourceSnapshot := u.sources } else none) := by
    intro u
    rw [Turn.plan?, OutputState.continued?]
    cases u.state.options with
    | none => rfl
    | some previous =>
        rw [Option.bind_some]
        dsimp only
        split
        · rw [OutputState.baselines?, Option.map_map]
          rfl
        · rfl
  rw [hplan, hplan, hs.options, hs.baselines, Turn.references, Turn.references, Turn.sources,
    Turn.sources, ho, hh]

/-- **Decisions.** Turns of one request that meet alike states and the same host take the same
course. -/
theorem of_alike (ho : a.options = b.options) (hs : a.state.Alike b.state)
    (hh : a.world.host = b.world.host)
    (hstep : ∀ u ∈ [a, b], ∀ c, u.state.compilation = some c → ∃ o, c.InStep o) :
    SameCourse t a b := by
  have hplan := plan?_congr ho hs hh
  have hpromised : a.promised = b.promised := by
    simp only [Turn.promised, hplan, OutputState.reusable?_isSome, ho, hs.kept]
  refine ⟨hplan, ?_, ?_, fun u _ hu => Turn.performs_of_not_updated hu, ?_, ?_⟩
  · rw [Turn.wanted, Turn.wanted, hplan, ho]
  · intro r r' hr hr'
    rw [Turn.report?_eq hr, Turn.report?_eq hr', hpromised]
  · intro u hu hupdated
    have hsame : u.plan? = a.plan? := by
      rcases List.mem_pair.mp hu with rfl | rfl
      · rfl
      · exact hplan.symm
    obtain ⟨c, _, _, _, old, -⟩ := Turn.updated_iff.mp hupdated
    obtain ⟨plan, hfound, -⟩ := Turn.exists_plan old
    obtain ⟨_, -, -, hkept⟩ := OutputState.continued?_eq_some old
    obtain ⟨_, hin⟩ := hstep u hu c hkept
    obtain ⟨fresh, hcovers, hperforms⟩ := Turn.performs_of_updated old hin hfound hupdated
    exact ⟨c, plan, fresh, old, hsame.symm.trans hfound, hcovers, hperforms⟩
  · intro h h'
    rw [Turn.reused_iff_promised, Turn.reused_iff_promised, hpromised]
    exact and_congr (iff_of_true h h') Iff.rfl

end SameCourse

end IncrementalBuild
