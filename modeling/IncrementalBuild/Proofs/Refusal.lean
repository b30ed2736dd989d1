import IncrementalBuild.Proofs.Decision
/-!
# Requests that are refused

A request is refused when the engine cannot give a handle for one of its inputs, or cannot build a
unit from them. Whichever input it is, by then nothing but the engine's own state has changed: the
output's state is as before, no handle was put into a unit or taken out of one, and no file was
written. So later requests take the course that they would have taken without the refused one.

## Main definitions

* `Turn.Refused` — the engine failed for one of the inputs of a turn, or for its unit.
* `Lockstep` — the turns for one later request, with and without a certain turn.

## Main results

* `Turn.Refused.outcome_eq` — a refused turn leaves the output's state.
* `Turn.not_took_iff` — the refused turns are those that do not get past their inputs.
* `OutputState.Alike.step`, `Lockstep.alike` — later requests meet alike states.
* `Run.refused_leaves_all` — all that a refused turn leaves, and what follows for later requests.
-/

namespace IncrementalBuild

variable {σ ρ φ υ : Type}

/-! ### Refusals -/

namespace Turn

/-- The engine fails for an input of a turn, or for its unit: how it fails, and the world
afterwards. Inputs are taken up in the orders of the host, so that any of those that cannot be had
may be the one that the turn fails for. -/
inductive Refused (t : Toolchain σ ρ φ υ) (u : Turn σ ρ φ υ) : Failure → World σ → Prop
  /-- A reference could not be resolved, after those taken up before it were. -/
  | reference {done rest : List Path} {p : Path} {resolved : List (Path × ρ)} {w w' : World σ}
      {e : Failure} (asked : u.world.host.resolving.arrange u.wanted.1 = done ++ p :: rest)
      (before : resolveAll t.engine u.options {} done u.looked = (.ok resolved, w))
      (fails : t.engine.resolveReference (u.options.resolve p) w = (.error e, w')) :
      Refused t u e (Task.anyway (fun p => t.engine.resolveReference (u.options.resolve p))
        (rest.take u.world.host.resolving.further) w')
  /-- A source could not be parsed, after all references were resolved and the sources taken up
  before it parsed. -/
  | source {done rest : List Path} {p : Path} {resolved : List (Path × ρ)}
      {parsed : List (Path × φ)} {w₁ w w' : World σ} {e : Failure}
      (references : resolveAll t.engine u.options u.world.host.resolving u.wanted.1 u.looked =
        (.ok resolved, w₁))
      (asked : u.world.host.parsing.arrange u.wanted.2 = done ++ p :: rest)
      (before : parseAll t.engine u.options {} done w₁ = (.ok parsed, w))
      (fails : t.engine.parseSource (u.options.resolve p) u.options.defines w = (.error e, w')) :
      Refused t u e
        (Task.anyway (fun p => t.engine.parseSource (u.options.resolve p) u.options.defines)
          (rest.take u.world.host.parsing.further) w')
  /-- A unit could not be built from all handles. -/
  | unit {resolved : List (Path × ρ)} {parsed : List (Path × φ)} {w₁ w w' : World σ} {e : Failure}
      (new : u.state.continued? u.options = none)
      (references : resolveAll t.engine u.options u.world.host.resolving u.wanted.1 u.looked =
        (.ok resolved, w₁))
      (sources : parseAll t.engine u.options u.world.host.parsing u.wanted.2 w₁ = (.ok parsed, w))
      (fails : t.engine.buildUnit (parsed.map Prod.snd) (resolved.map Prod.snd)
        u.options.unitSettings w = (.error e, w')) : Refused t u e w'

variable {t : Toolchain σ ρ φ υ} {u : Turn σ ρ φ υ} {c : Compilation ρ φ υ} {e : Failure}
  {w' : World σ}

/-- A turn that is refused before it builds a unit is refused while it resolves its references, or
while it parses its sources. -/
theorem Refused.gathering (h : u.Refused t e w') :
    resolveAll t.engine u.options u.world.host.resolving u.wanted.1 u.looked = (.error e, w') ∨
      ∃ resolved w₁,
        resolveAll t.engine u.options u.world.host.resolving u.wanted.1 u.looked =
          (.ok resolved, w₁) ∧
        (parseAll t.engine u.options u.world.host.parsing u.wanted.2 w₁ = (.error e, w') ∨
          ∃ parsed w₂, u.state.continued? u.options = none ∧
            parseAll t.engine u.options u.world.host.parsing u.wanted.2 w₁ = (.ok parsed, w₂) ∧
            t.engine.buildUnit (parsed.map Prod.snd) (resolved.map Prod.snd)
              u.options.unitSettings w₂ = (.error e, w')) := by
  cases h with
  | reference asked before fails =>
      exact .inl (gatherAll_eq_error_iff.mpr ⟨_, _, _, _, _, _, asked, before, fails, rfl⟩)
  | source references asked before fails =>
      exact .inr ⟨_, _, references,
        .inl (gatherAll_eq_error_iff.mpr ⟨_, _, _, _, _, _, asked, before, fails, rfl⟩)⟩
  | unit new references sources fails =>
      exact .inr ⟨_, _, references, .inr ⟨_, _, new, sources, fails⟩⟩

/-- The creation of a compilation fails if the turn that needs it is refused. -/
theorem Refused.create_eq (h : u.Refused t e w') (hnew : u.state.continued? u.options = none) :
    Compilation.create t.engine u.options u.world = (.error e, w') := by
  have hgathering := h.gathering
  rw [wanted_of_new hnew, looked_of_new hnew] at hgathering
  rcases hgathering with hreferences | ⟨resolved, w₁, hreferences, hgathering⟩
  · simp only [Compilation.create, Compilation.createBy, Task.bind_apply, capture, Task.onHost,
      hreferences]
  rcases hgathering with hsources | ⟨parsed, w₂, -, hsources, hunit⟩
  · simp only [Compilation.create, Compilation.createBy, Task.bind_apply, capture, Task.onHost,
      hreferences, hsources]
  · simp only [Compilation.create, Compilation.createBy, Task.bind_apply, capture, Task.onHost,
      hreferences, hsources, hunit]

/-- The update of a compilation fails if the turn that needs it is refused. -/
theorem Refused.update_eq (h : u.Refused t e w') (hold : u.state.continued? u.options = some c) :
    c.update t.engine u.options u.world = (.error e, w') := by
  obtain ⟨plan, hplan, hlooked⟩ := exists_plan hold
  have hwanted : u.wanted = (plan.references.touched, plan.sources.touched) := by
    rw [wanted, hplan]
  have hgathering := h.gathering
  rw [hwanted, ← resolving_looked, ← parsing_looked] at hgathering
  rcases hgathering with hreferences | ⟨resolved, w₁, hreferences, hgathering⟩
  · simp only [Compilation.update, Plan.prepare, Plan.prepareBy, Task.bind_apply, hlooked,
      hreferences]
  rcases hgathering with hsources | ⟨parsed, w₂, hnew, -⟩
  · simp only [Compilation.update, Plan.prepare, Plan.prepareBy, Task.bind_apply, hlooked,
      hreferences, hsources]
  · exact absurd (hold.symm.trans hnew) (by simp)

/-- **Refusal.** A refused turn fails as the engine failed, and leaves the output's state. -/
theorem Refused.outcome_eq (h : u.Refused t e w') : u.outcome t = ⟨.error e, u.state, w'⟩ := by
  rw [outcome, OutputState.build]
  rcases hcontinued : u.state.continued? u.options with _ | c
  · simp only [OutputState.buildFull, h.create_eq hcontinued]
  · simp only [OutputState.buildIncremental, h.update_eq hcontinued]

/-- Until a turn is refused it only gathers. -/
theorem Refused.gathers (h : u.Refused t e w') : t.engine.Gathers u.world w' := by
  rcases hcontinued : u.state.continued? u.options with _ | c
  · have hgathers := Engine.gathers_create t.engine u.options u.world
    rw [h.create_eq hcontinued] at hgathers
    exact hgathers
  · obtain ⟨plan, w₁, hplan, hprepare⟩ := Compilation.update_eq_error (h.update_eq hcontinued)
    have hfirst := Engine.gathers_plan t.engine u.options c u.world
    have hsecond := Engine.gathers_prepare t.engine u.options plan w₁
    rw [hplan] at hfirst
    rw [hprepare] at hsecond
    exact hfirst.trans hsecond

end Turn

/-! ### Every failure before the emit is a refusal -/

namespace Turn

variable {t : Toolchain σ ρ φ υ} {u : Turn σ ρ φ υ} {c : Compilation ρ φ υ} {e : Failure}
  {w' : World σ}

/-- If all references cannot be resolved, a turn is refused for one of them. -/
theorem Refused.of_references
    (h : resolveAll t.engine u.options u.world.host.resolving u.wanted.1 u.looked =
      (.error e, w')) : u.Refused t e w' := by
  obtain ⟨done, p, rest, resolved, w, _, asked, before, fails, rfl⟩ := gatherAll_eq_error_iff.mp h
  exact .reference asked before fails

/-- If all sources cannot be parsed, a turn is refused for one of them. -/
theorem Refused.of_sources {resolved : List (Path × ρ)} {w₁ : World σ}
    (references : resolveAll t.engine u.options u.world.host.resolving u.wanted.1 u.looked =
      (.ok resolved, w₁))
    (h : parseAll t.engine u.options u.world.host.parsing u.wanted.2 w₁ = (.error e, w')) :
    u.Refused t e w' := by
  obtain ⟨done, p, rest, parsed, w, _, asked, before, fails, rfl⟩ := gatherAll_eq_error_iff.mp h
  exact .source references asked before fails

/-- If a compilation cannot be created, the turn that needs it is refused. -/
theorem Refused.of_create (hnew : u.state.continued? u.options = none)
    (h : Compilation.create t.engine u.options u.world = (.error e, w')) : u.Refused t e w' := by
  have hwanted := wanted_of_new hnew
  have hlooked := looked_of_new hnew
  rw [Compilation.create, Compilation.createBy, Task.bind_apply, capture, Task.onHost] at h
  dsimp only at h
  rw [Task.bind_apply, capture, Task.onHost] at h
  dsimp only at h
  rw [← hlooked] at h
  rcases Task.bind_eq_error h with hresolve | ⟨resolved, w₁, hresolved, h⟩
  · exact .of_references (by rw [hwanted]; exact hresolve)
  rcases Task.bind_eq_error h with hparse | ⟨parsed, w₂, hparsed, h⟩
  · exact .of_sources (by rw [hwanted]; exact hresolved) (by rw [hwanted]; exact hparse)
  rcases Task.bind_eq_error h with hbuild | ⟨unit, w₃, -, h⟩
  · exact .unit hnew (by rw [hwanted]; exact hresolved) (by rw [hwanted]; exact hparsed) hbuild
  · exact absurd (congrArg Prod.fst h) (by simp)

/-- If a compilation cannot be brought up to date, the turn that needs it is refused. -/
theorem Refused.of_update (hold : u.state.continued? u.options = some c)
    (h : c.update t.engine u.options u.world = (.error e, w')) : u.Refused t e w' := by
  obtain ⟨plan, hplan, hlooked⟩ := exists_plan hold
  obtain ⟨_, _, hlooked', h⟩ := Compilation.update_eq_error h
  obtain ⟨hsame, rfl⟩ := Prod.mk.inj (hlooked.symm.trans hlooked')
  obtain rfl := Except.ok.inj hsame
  have hwanted : u.wanted = (plan.references.touched, plan.sources.touched) := by
    rw [wanted, hplan]
  rw [Plan.prepare, resolving_looked, parsing_looked] at h
  rcases Task.bind_eq_error h with hresolve | ⟨resolved, w₁, hresolved, h⟩
  · exact .of_references (by rw [hwanted]; exact hresolve)
  rcases Task.bind_eq_error h with hparse | ⟨parsed, w₂, -, h⟩
  · exact .of_sources (by rw [hwanted]; exact hresolved) (by rw [hwanted]; exact hparse)
  · exact absurd (congrArg Prod.fst h) (by simp)

/-- A refused turn does not get past its inputs. -/
theorem Refused.not_took (h : u.Refused t e w') : ¬ u.Took t := by
  rintro (hfounded | hupdated)
  · rw [Founded, h.outcome_eq] at hfounded
    exact hfounded rfl
  · obtain ⟨c, c', plan, w, old, update⟩ := updated_iff.mp hupdated
    exact absurd ((h.update_eq old).symm.trans update) (by simp)

/-- **Inversion.** The turns that do not get past their inputs are those that are refused. -/
theorem not_took_iff : ¬ u.Took t ↔ ∃ e w', u.Refused t e w' := by
  constructor
  · intro htook
    have hcourse : Course t u.options u.state u.world (u.outcome t) :=
      OutputState.course_build t u.options u.state u.world
    rcases u.settled t with ⟨-, hstate⟩ | ⟨h, -⟩
    · rw [Took, Founded, not_or, not_not] at htook
      obtain ⟨hgeneration, hupdated⟩ := htook
      generalize u.outcome t = out at hcourse hgeneration
      cases hcourse with
      | unfounded new create => exact ⟨_, _, .of_create new create⟩
      | stuck old update => exact ⟨_, _, .of_update old update⟩
      | @founded c w' new create =>
          obtain ⟨kept, after, hstate, -⟩ := OutputState.emitUnit_frame t u.options c.unit
            { kind := .full, source := .emitted } (u.state.found u.options c) w'
          rw [hstate] at hgeneration
          exact absurd hgeneration (Nat.succ_ne_self _)
      | emitted old update => exact absurd (updated_iff.mpr ⟨_, _, _, _, old, update⟩) hupdated
      | reused old update => exact absurd (updated_iff.mpr ⟨_, _, _, _, old, update⟩) hupdated
    · exact absurd h htook
  · rintro ⟨e, w', h⟩
    exact h.not_took

end Turn

/-! ### Later requests -/

/-- The turns for one later request, in a run with a certain turn and in the run without it. All
turns in between have ended alike: they got past their inputs, and left bytes, in both runs or in
neither. -/
inductive Lockstep (t : Toolchain σ ρ φ υ) (u : Turn σ ρ φ υ) :
    Turn σ ρ φ υ → Turn σ ρ φ υ → Prop
  | next (o : BuildOptions) (host : Host) :
      Lockstep t u (u.follow t o host) ⟨o, u.state, ⟨host, u.world.engine⟩⟩
  | later {a b : Turn σ ρ φ υ} (before : Lockstep t u a b) (took : a.Took t ↔ b.Took t)
      (kept : (a.outcome t).state.kept.isSome = (b.outcome t).state.kept.isSome)
      (o : BuildOptions) (host : Host) : Lockstep t u (a.follow t o host) (b.follow t o host)

section Later

variable {t : Toolchain σ ρ φ υ} {u a b : Turn σ ρ φ υ}

/-- **Step.** Turns of one request that meet alike states and end alike leave alike states. -/
theorem OutputState.Alike.step (hs : a.state.Alike b.state) (ho : a.options = b.options)
    (hh : a.world.host = b.world.host) (took : a.Took t ↔ b.Took t)
    (kept : (a.outcome t).state.kept.isSome = (b.outcome t).state.kept.isSome) :
    (a.outcome t).state.Alike (b.outcome t).state := by
  rcases a.settled t with ⟨ha, hastate⟩ | ⟨ha, hasettled⟩
  · rcases b.settled t with ⟨-, hbstate⟩ | ⟨hb, -⟩
    · rw [hastate, hbstate]
      exact hs
    · exact absurd (took.mpr hb) ha
  · rcases b.settled t with ⟨hb, -⟩ | ⟨-, hbsettled⟩
    · exact absurd (took.mp ha) hb
    refine ⟨?_, ?_, ?_⟩
    · rw [hasettled.options, hbsettled.options, ho]
    · rw [hasettled.baselines, hbsettled.baselines]
      simp only [Turn.renewed, SameCourse.plan?_congr ho hs hh, ho, hh]
    · rcases hak : (a.outcome t).state.kept with _ | k <;>
        rcases hbk : (b.outcome t).state.kept with _ | k'
      · rfl
      · simp [hak, hbk] at kept
      · simp [hak, hbk] at kept
      · rw [Option.map_some, Option.map_some, hasettled.kept k hak, hbsettled.kept k' hbk, ho]

/-- **Lockstep.** In a run with a refused turn and in the run without it, later requests meet alike
states. -/
theorem Lockstep.alike {turns : List (Turn σ ρ φ υ)} (h : Lockstep t u a b)
    (run : Run t turns u.state u.world.engine) (hu : (u.outcome t).state = u.state) :
    a.options = b.options ∧ a.world.host = b.world.host ∧ a.state.Alike b.state ∧
      ∀ v ∈ [a, b], ∃ before, Run t before v.state v.world.engine := by
  have hnext : ∀ {v : Turn σ ρ φ υ} {before : List (Turn σ ρ φ υ)},
      Run t before v.state v.world.engine →
      Run t (v :: before) (v.outcome t).state (v.outcome t).world.engine :=
    fun {v} _ hrun => hrun.next v.options v.world.host
  induction h with
  | next o host =>
      refine ⟨rfl, rfl, ?_, fun v hv => ?_⟩
      · rw [Turn.follow_state, hu]
        exact .refl _
      · rcases List.mem_pair.mp hv with rfl | rfl
        · exact ⟨u :: turns, hnext run⟩
        · exact ⟨turns, run⟩
  | @later a b before took kept o host ih =>
      obtain ⟨ho, hh, hs, hruns⟩ := ih
      refine ⟨rfl, rfl, hs.step ho hh took kept, fun v hv => ?_⟩
      rcases List.mem_pair.mp hv with rfl | rfl
      · obtain ⟨turns, hrun⟩ := hruns a List.mem_cons_self
        exact ⟨_, hnext hrun⟩
      · obtain ⟨turns, hrun⟩ := hruns b (List.mem_cons_of_mem a List.mem_cons_self)
        exact ⟨_, hnext hrun⟩

/-- **A refused request leaves no trace.** When a build of any run fails because the engine fails
for a reference, for a source or for the unit of them, the output's state is as before the build, no
handle was put into a unit or taken out of one, and nothing was done on the host but looking at it
and what the engine did for the inputs. So all that is requested later, while it ends alike with and
without the refused build, takes the same course with and without it. -/
theorem Run.refused_leaves_all {turns : List (Turn σ ρ φ υ)} {e : Failure} {w' : World σ}
    (run : Run t turns u.state u.world.engine) (h : u.Refused t e w') :
    u.outcome t = ⟨.error e, u.state, w'⟩ ∧ u.Performs t [] ∧
      t.engine.Gathers u.world w' ∧
      (t.engine.OnlyLooks → ∃ n, w'.host = u.world.host.elapse n) ∧
      ∀ a b, Lockstep t u a b → SameCourse t a b := by
  have houtcome := h.outcome_eq
  have hstate : (u.outcome t).state = u.state := by rw [houtcome]
  refine ⟨houtcome, ?_, h.gathers, h.gathers.elapsed, fun a b hlock => ?_⟩
  · exact Turn.performs_of_not_updated fun hupdated => h.not_took (.inr hupdated)
  · obtain ⟨ho, hh, hs, hruns⟩ := hlock.alike run hstate
    refine .of_alike ho hs hh fun v hv c hc => ?_
    obtain ⟨before, hrun⟩ := hruns v hv
    exact hrun.inStep hc

end Later

/-! ### A source that is not there -/

namespace Missing

/-- A host with one source. -/
def host : Host :=
  { files := { entries := [(["a.cs"], .file (Bytes.ofString "A") ⟨1⟩ false)] } }

/-- A request with sources. -/
def request (files : List String) : BuildOptions :=
  { workDirectory := "/", output := "out", files }

/-- The first turn builds the source. -/
def first : Turn Recording.State Recording.Reference Recording.Source Recording.RecordedUnit :=
  ⟨request ["a.cs"], {}, ⟨host, {}⟩⟩

/-- The second turn asks for a source that is not there. -/
def second : Turn Recording.State Recording.Reference Recording.Source Recording.RecordedUnit :=
  first.follow Recording.toolchain (request ["b.cs"]) host

/-- The third turn asks for the first source again. -/
def third : Turn Recording.State Recording.Reference Recording.Source Recording.RecordedUnit :=
  second.follow Recording.toolchain (request ["a.cs"]) host

/-- The second turn is refused and changes no unit, and the third goes on from the first. -/
theorem third_as_without_second :
    ∃ e w', second.Refused Recording.toolchain e w' ∧
      second.outcome Recording.toolchain = ⟨.error e, second.state, w'⟩ ∧
      (∀ calls, second.Performs Recording.toolchain calls ↔ calls = []) ∧
      second.state.generation = 1 ∧ third.Updated Recording.toolchain ∧
      SameCourse Recording.toolchain third
        ⟨third.options, second.state, ⟨third.world.host, second.world.engine⟩⟩ := by
  have hrun : Run Recording.toolchain [first] second.state second.world.engine :=
    Run.first Recording.toolchain rfl
  have hnot : ¬ second.Took Recording.toolchain := by
    rw [Turn.Took, Turn.Founded, not_or]
    decide +kernel
  obtain ⟨e, w', hrefused⟩ := Turn.not_took_iff.mp hnot
  obtain ⟨houtcome, hperforms, -, -, hcourse⟩ := Run.refused_leaves_all hrun hrefused
  refine ⟨e, w', hrefused, houtcome, fun calls => ⟨fun hcalls => hcalls.unique hperforms, ?_⟩,
    by decide +kernel, by decide +kernel, ?_⟩
  · rintro rfl
    exact hperforms
  · exact hcourse _ _ (.next (request ["a.cs"]) host)

end Missing
end IncrementalBuild
