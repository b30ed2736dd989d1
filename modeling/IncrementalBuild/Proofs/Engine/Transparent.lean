import IncrementalBuild.Proofs.Engine.Watched
import IncrementalBuild.Proofs.Run
/-!
# Watching changes nothing

A build with a watched engine does what the build with the engine itself does: without ledger and
labels it has the same result and leaves the same state, host and engine. So every run of a
toolchain is what is left of a run of the watched one.

## Main definitions

* `World.plain`, `Compilation.plain`, `OutputState.plain`, `Turn.plain` — without ledger and labels.
* `Task.Follows` — a watched task does what a plain one does.
* `Run.WatchedAs` — a run, and the watched run that it is left of.

## Main results

* `OutputState.build_plain` — a watched build without ledger and labels is the build itself.
* `Run.exists_watchedAs` — every run is left of a watched one.
-/

namespace IncrementalBuild

variable {σ ρ φ υ η α α' β β' : Type}

/-! ### Without ledger and labels -/

/-- A world without the ledger. -/
def World.plain (w : World (Ledger σ ρ φ)) : World σ := ⟨w.host, w.engine.state⟩

/-- A compilation without the label of its unit. -/
def Compilation.plain (c : Compilation ρ φ (Labelled υ)) : Compilation ρ φ υ :=
  { c with unit := c.unit.unit }

/-- A state without labels. -/
def OutputState.plain (s : OutputState ρ φ (Labelled υ)) : OutputState ρ φ υ :=
  { s with compilation := s.compilation.map Compilation.plain }

/-- An outcome without ledger and labels. -/
def Outcome.plain (out : Outcome (Ledger σ ρ φ) ρ φ (Labelled υ)) : Outcome σ ρ φ υ :=
  ⟨out.result, out.state.plain, out.world.plain⟩

/-- A turn without ledger and labels. -/
def Turn.plain (u : Turn (Ledger σ ρ φ) ρ φ (Labelled υ)) : Turn σ ρ φ υ :=
  ⟨u.options, u.state.plain, u.world.plain⟩

/-- A watched task does what a plain one does, up to what `f` leaves of its value. -/
def Task.Follows (f : α' → α) (t' : Task (Ledger σ ρ φ) α') (t : Task σ α) : Prop :=
  ∀ w, t w.plain = ((t' w).1.map f, (t' w).2.plain)

namespace Task.Follows

variable {f : α' → α} {g : β' → β}

/-- Doing nothing follows doing nothing. -/
theorem pure (a : α') : Follows f (Pure.pure a : Task (Ledger σ ρ φ) α') (Pure.pure (f a)) :=
  fun _ => rfl

/-- A task in two parts is followed part by part. -/
theorem bind {t' : Task (Ledger σ ρ φ) α'} {t : Task σ α} {k' : α' → Task (Ledger σ ρ φ) β'}
    {k : α → Task σ β} (ht : Follows f t' t) (hk : ∀ a, Follows g (k' a) (k (f a))) :
    Follows g (t' >>= k') (t >>= k) := by
  intro w
  rw [bind_apply, bind_apply, ht w]
  rcases t' w with ⟨e | a, w'⟩
  · rfl
  · exact hk a w'

/-- Tasks for some items are followed item by item, whatever comes of each. -/
theorem anyway {t' : η → Task (Ledger σ ρ φ) α} {t : η → Task σ α}
    (h : ∀ x, Follows id (t' x) (t x)) (items : List η) (w : World (Ledger σ ρ φ)) :
    Task.anyway t items w.plain = (Task.anyway t' items w).plain := by
  induction items generalizing w with
  | nil => rfl
  | cons x rest ih =>
      have hx : (t x w.plain).2 = (t' x w).2.plain := by rw [h x w]
      exact (congrArg (Task.anyway t rest) hx).trans (ih (t' x w).2)

/-- A task for items that are worked on at the same time is followed item by item. -/
theorem together {t' : η → Task (Ledger σ ρ φ) α} {t : η → Task σ α}
    (h : ∀ x, Follows id (t' x) (t x)) (s : Schedule) (items : List η) :
    Follows id (Task.together s t' items) (Task.together s t items) := by
  rw [Task.together, Task.together]
  induction s.arrange items with
  | nil => exact pure []
  | cons x rest ih =>
      intro w
      rw [untilFailure_cons, untilFailure_cons, h x w]
      rcases t' x w with ⟨e | a, w₁⟩
      · exact congrArg (Prod.mk _) (anyway h (rest.take s.further) w₁)
      · dsimp only [Except.map]
        rw [ih w₁]
        rcases untilFailure s.further t' rest w₁ with ⟨e | as, w₂⟩ <;> rfl

/-- Getting something for every path is followed path by path. -/
theorem gatherAll {t' : Path → Task (Ledger σ ρ φ) α} {t : Path → Task σ α}
    (h : ∀ p, Follows id (t' p) (t p)) (s : Schedule) (paths : List Path) :
    Follows id (gatherAll s t' paths) (gatherAll s t paths) :=
  (together (fun p => (h p).bind fun a => pure (p, a)) s paths).bind fun _ => pure _

/-- Work on the host follows itself. -/
theorem onHost (act : Host → Except BuildError α × Host) :
    Follows id (Task.onHost act : Task (Ledger σ ρ φ) α) (Task.onHost act) := by
  intro w
  simp only [Task.onHost, World.plain]
  rcases act w.host with ⟨e | a, host⟩ <;> rfl

/-- A recorded task follows the task itself. -/
theorem watchTask (call : Except Failure α → EngineCall ρ φ) (t : Task σ α) :
    Follows id (Engine.watchTask call t) t := by
  intro w
  rw [Engine.watchTask]
  dsimp only [World.plain]
  rcases t ⟨w.host, w.engine.state⟩ with ⟨e | a, w'⟩ <;> rfl

end Task.Follows

/-! ### Compilations -/

namespace Engine

variable (e : Engine σ ρ φ υ) (o : BuildOptions)

/-- Resolving references is followed. -/
theorem follows_resolveAll (s : Schedule) (paths : List Path) :
    Task.Follows id (resolveAll e.watched o s paths) (resolveAll e o s paths) := by
  refine Task.Follows.gatherAll (fun p => ?_) s paths
  exact Task.Follows.watchTask _ (e.resolveReference (o.resolve p))

/-- Parsing sources is followed. -/
theorem follows_parseAll (s : Schedule) (paths : List Path) :
    Task.Follows id (parseAll e.watched o s paths) (parseAll e o s paths) := by
  refine Task.Follows.gatherAll (fun p => ?_) s paths
  exact Task.Follows.watchTask _ (e.parseSource (o.resolve p) o.defines)

/-- Building a unit is followed. -/
theorem follows_buildUnit (sources : List φ) (references : List ρ) (settings : UnitSettings) :
    Task.Follows Labelled.unit (e.watched.buildUnit sources references settings)
      (e.buildUnit sources references settings) := by
  intro w
  have h := Task.Follows.watchTask (fun _ => .buildUnit sources references settings)
    (e.buildUnit sources references settings) w
  rw [watched]
  dsimp only
  rw [Task.bind_apply, h]
  rcases watchTask (fun _ => .buildUnit sources references settings)
    (e.buildUnit sources references settings) w with ⟨cause | unit, w'⟩ <;> rfl

/-- Creating a compilation is followed, whatever the orders. -/
theorem follows_createBy (resolving parsing : Schedule) :
    Task.Follows Compilation.plain (Compilation.createBy resolving parsing e.watched o)
      (Compilation.createBy resolving parsing e o) := by
  refine (Task.Follows.onHost _).bind fun _ => (Task.Follows.onHost _).bind fun _ => ?_
  refine (follows_resolveAll e o _ _).bind fun _ => (follows_parseAll e o _ _).bind fun _ => ?_
  exact (follows_buildUnit e _ _ _).bind fun unit => Task.Follows.pure _

/-- Creating a compilation is followed. -/
theorem follows_create : Task.Follows Compilation.plain (Compilation.create e.watched o)
    (Compilation.create e o) :=
  fun w => follows_createBy e o w.host.resolving w.host.parsing w

end Engine

/-- An assembly without ledger and labels. -/
def Assembly.plain (a : Assembly η (Labelled υ) (Ledger σ ρ φ)) : Assembly η υ σ :=
  ⟨a.handles, a.unit.unit, a.engine.state⟩

section Changes

variable (add remove : η → υ → σ → υ × σ) (addCall removeCall : η → EngineCall ρ φ)

/-- Taking a handle out of a watched unit takes it out of the unit. -/
theorem Assembly.take_plain (a : Assembly η (Labelled υ) (Ledger σ ρ φ)) (p : Path) :
    a.plain.take remove p =
      (a.take (fun x => Engine.watchChange (removeCall x) (remove x)) p).plain := by
  rw [take, take]
  dsimp only [plain]
  split <;> rfl

/-- Putting a handle into a watched unit puts it into the unit. -/
theorem Assembly.put_plain (fresh : PathMap η) (a : Assembly η (Labelled υ) (Ledger σ ρ φ))
    (p : Path) :
    a.plain.put add remove fresh p =
      (a.put (fun x => Engine.watchChange (addCall x) (add x))
        (fun x => Engine.watchChange (removeCall x) (remove x)) fresh p).plain := by
  rw [put, put]
  split
  · rfl
  · next handle =>
      rw [take_plain remove removeCall]
      rfl

/-- Applying changes to a watched unit applies them to the unit. -/
theorem Assembly.apply_plain (changes : Changes) (fresh : PathMap η)
    (a : Assembly η (Labelled υ) (Ledger σ ρ φ)) :
    a.plain.apply add remove changes fresh =
      (a.apply (fun x => Engine.watchChange (addCall x) (add x))
        (fun x => Engine.watchChange (removeCall x) (remove x)) changes fresh).plain := by
  rw [apply, apply,
    List.foldl_hom plain (fun b p => put_plain add remove addCall removeCall fresh b p),
    List.foldl_hom plain (fun b p => take_plain remove removeCall b p)]

end Changes

namespace Engine

variable (e : Engine σ ρ φ υ) (o : BuildOptions)

/-- Applying a plan is followed. -/
theorem follows_apply (c : Compilation ρ φ (Labelled υ)) (plan : Plan) (fresh : Fresh ρ φ) :
    Task.Follows Compilation.plain (c.apply e.watched plan fresh) (c.plain.apply e plan fresh) := by
  intro w
  have hr := Assembly.apply_plain e.addReference e.removeReference .addReference .removeReference
    plan.references fresh.references ⟨c.references, c.unit, w.engine⟩
  set r := Assembly.apply e.watched.addReference e.watched.removeReference plan.references
    fresh.references ⟨c.references, c.unit, w.engine⟩ with hrdef
  have hs := Assembly.apply_plain e.addSource e.removeSource .addSource .removeSource
    plan.sources fresh.sources ⟨c.sources, r.unit, r.engine⟩
  have hr' : Assembly.apply e.addReference e.removeReference plan.references fresh.references
      ⟨c.references, c.unit.unit, w.engine.state⟩ = r.plain := hr
  rw [Compilation.apply, Compilation.apply, Task.onEngine, Task.onEngine]
  dsimp only [Compilation.plain, World.plain]
  rw [hr', ← hrdef]
  dsimp only [Assembly.plain] at hs ⊢
  rw [hs]
  rfl

/-- Getting handles for what a plan touches is followed. -/
theorem follows_prepare (plan : Plan) :
    Task.Follows id (plan.prepare e.watched o) (plan.prepare e o) := by
  have h (resolving parsing : Schedule) : Task.Follows id
      (plan.prepareBy resolving parsing e.watched o) (plan.prepareBy resolving parsing e o) :=
    (follows_resolveAll e o _ _).bind fun _ => (follows_parseAll e o _ _).bind fun _ =>
      Task.Follows.pure _
  exact fun w => h w.host.resolving w.host.parsing w

/-- Bringing a compilation up to date is followed. -/
theorem follows_update (c : Compilation ρ φ (Labelled υ)) :
    Task.Follows (fun r => (r.1, r.2.plain)) (c.update e.watched o) (c.plain.update e o) := by
  refine Task.Follows.bind (f := id) ?_ fun plan => ?_
  · exact (Task.Follows.onHost _).bind fun _ => (Task.Follows.onHost _).bind fun _ =>
      Task.Follows.pure _
  refine Task.Follows.bind (f := id) (follows_prepare e o plan) fun fresh => ?_
  exact (follows_apply e c plan fresh).bind fun c' => Task.Follows.pure (plan, c')

end Engine

/-! ### Builds -/

namespace OutputState

variable (t : Toolchain σ ρ φ υ) (o : BuildOptions)

/-- Emitting a unit is followed. -/
theorem follows_emit (unit : Labelled υ) :
    Task.Follows id (emit t.watched unit o) (emit t unit.unit o) := by
  refine Task.Follows.bind (f := id) (Task.Follows.watchTask _ _) fun output => ?_
  refine (Task.Follows.onHost _).bind fun _ => (Task.Follows.onHost _).bind fun written => ?_
  dsimp only [id]
  split
  · exact (Task.Follows.onHost _).bind fun _ => Task.Follows.pure _
  · exact (Task.Follows.pure _).bind fun _ => Task.Follows.pure _

/-- **Emitting** a unit with a watched engine is emitting it. -/
theorem emitUnit_plain (unit : Labelled υ) (report : Report) (s : OutputState ρ φ (Labelled υ))
    (w : World (Ledger σ ρ φ)) :
    emitUnit t o unit.unit report s.plain w.plain =
      (emitUnit t.watched o unit report s w).plain := by
  rw [emitUnit, emitUnit, follows_emit t o unit w]
  rcases emit t.watched unit o w with ⟨(cause | _) | e, w'⟩ <;> rfl

/-- Writing kept bytes again does not depend on ledger and labels. -/
theorem reuse_plain (k : KeptOutput) (report : Report) (s : OutputState ρ φ (Labelled υ))
    (w : World (Ledger σ ρ φ)) :
    reuse o k report s.plain w.plain = (reuse o k report s w).plain := by
  unfold reuse
  rw [World.plain]
  dsimp only
  cases k.write o w.host with
  | mk written host =>
      cases written with
      | ok => rfl
      | error => rfl

/-- **Transparency.** A watched build without ledger and labels is the build itself. -/
theorem build_plain (s : OutputState ρ φ (Labelled υ)) (w : World (Ledger σ ρ φ)) :
    s.plain.build t o w.plain = (s.build t.watched o w).plain := by
  have hcontinued : s.plain.continued? o = (s.continued? o).map Compilation.plain := by
    rw [continued?, continued?, plain]
    dsimp only
    split
    · split <;> rfl
    · rfl
  rw [build, build, hcontinued]
  cases s.continued? o with
  | none =>
      have hcreate := Engine.follows_create t.engine o w
      rw [← Toolchain.watched_engine] at hcreate
      simp only [Option.map_none, buildFull, hcreate]
      rcases Compilation.create t.watched.engine o w with ⟨cause | c, w'⟩
      · rfl
      · exact emitUnit_plain t o c.unit _ (s.found o c) w'
  | some c =>
      have hupdate := Engine.follows_update t.engine o c w
      rw [← Toolchain.watched_engine] at hupdate
      simp only [Option.map_some, buildIncremental, hupdate]
      rcases c.update t.watched.engine o w with ⟨cause | ⟨plan, c'⟩, w'⟩
      · rfl
      · have hreusable : ({ s.plain with options := some o, compilation := some c'.plain } :
            OutputState ρ φ υ).reusable? o plan.references plan.sources =
            (s.advance o c').reusable? o plan.references plan.sources := rfl
        have hadvance : ({ s with options := some o, compilation := some c' } :
            OutputState ρ φ (Labelled υ)) = s.advance o c' := rfl
        simp only [Except.map]
        rw [hreusable, hadvance]
        cases (s.advance o c').reusable? o plan.references plan.sources with
        | some k => exact reuse_plain o k (plan.report .reused) (s.advance o c') w'
        | none => exact emitUnit_plain t o c'.unit (plan.report .emitted) (s.advance o c') w'

end OutputState

/-! ### Runs -/

/-- A watched turn makes the report of the turn itself. -/
theorem Turn.report?_plain (t : Toolchain σ ρ φ υ) (u : Turn (Ledger σ ρ φ) ρ φ (Labelled υ)) :
    u.plain.report? t = u.report? t.watched := by
  have h := OutputState.build_plain t u.options { u.state with report := none } u.world
  exact congrArg (fun out => out.state.report) h

/-- A watched turn is answered with kept bytes exactly when the turn itself is. -/
theorem Turn.reused_plain (t : Toolchain σ ρ φ υ) (u : Turn (Ledger σ ρ φ) ρ φ (Labelled υ)) :
    u.plain.Reused t ↔ u.Reused t.watched := by
  rw [Reused, Reused, report?_plain]

/-- A run of a toolchain, and the run of the watched toolchain that it is left of. -/
structure Run.WatchedAs (t : Toolchain σ ρ φ υ) (turns : List (Turn σ ρ φ υ))
    (s : OutputState ρ φ υ) (engine : σ)
    (watched : List (Turn (Ledger σ ρ φ) ρ φ (Labelled υ))) (ws : OutputState ρ φ (Labelled υ))
    (ledger : Ledger σ ρ φ) : Prop where
  run : Run t.watched watched ws ledger
  turns_eq : watched.map Turn.plain = turns
  state_eq : ws.plain = s
  engine_eq : ledger.state = engine

/-- **Every run can be watched.** -/
theorem Run.exists_watchedAs {t : Toolchain σ ρ φ υ} {turns : List (Turn σ ρ φ υ)}
    {s : OutputState ρ φ υ} {engine : σ} (run : Run t turns s engine) :
    ∃ watched ws ledger, Run.WatchedAs t turns s engine watched ws ledger := by
  induction run with
  | start engine => exact ⟨[], {}, ⟨engine, []⟩, .start _, rfl, rfl, rfl⟩
  | @next turns s engine run o host ih =>
      obtain ⟨watched, ws, ledger, hrun, rfl, rfl, rfl⟩ := ih
      have hplain := OutputState.build_plain t o ws ⟨host, ledger⟩
      refine ⟨_, _, _, hrun.next o host, rfl, ?_, ?_⟩
      · exact (congrArg Outcome.state hplain).symm
      · exact (congrArg (fun out => out.world.engine) hplain).symm

end IncrementalBuild
