import IncrementalBuild.Programs
import IncrementalBuild.Proofs.Engine.Command
import IncrementalBuild.Proofs.Run
/-!
# Incremental builds and builds from scratch

The engine that runs a compiler ends an incremental build with the unit that a build from scratch
would make of the same files, unless the build dropped a path that is resolved to the place of a
path which is still listed.

## Main definitions

* `Turn.Updated` — the turn brought a compilation up to date.
* `Turn.Clear` — if it did, it dropped no path that clashes with one that it lists.
* `Moments` — the file trees of turns: quiet, and other contents only with another time.
* `InSync` — a state in line with the files of the turn that its compilation was last brought up
  to date in.

## Main results

* `InSync.step`, `Run.inSync` — every state of a run is in sync.
* `Run.units_match_iff` — when all incremental builds of a run end as builds from scratch.
* `Respelled.unit_lost_source` — two requests that lose a source.
-/

namespace IncrementalBuild

variable {σ ρ φ υ : Type}

/-! ### Turns that bring a compilation up to date -/

/-- The compilation that a turn brought up to date, if it continued one and got past its inputs. -/
def Turn.updated? (t : Toolchain σ ρ φ υ) (u : Turn σ ρ φ υ) : Option (Compilation ρ φ υ) :=
  (u.state.continued? u.options).bind fun c =>
    (c.update t.engine u.options u.world).1.toOption.map Prod.snd

/-- A turn that brought a compilation up to date. -/
def Turn.Updated (t : Toolchain σ ρ φ υ) (u : Turn σ ρ φ υ) : Prop :=
  (u.updated? t).isSome = true

instance (t : Toolchain σ ρ φ υ) (u : Turn σ ρ φ υ) : Decidable (u.Updated t) :=
  inferInstanceAs (Decidable (_ = _))

/-- A turn that, if it brought a compilation up to date, dropped no path that clashes with one that
it lists. -/
def Turn.Clear (t : Toolchain σ ρ φ υ) (u : Turn σ ρ φ υ) : Prop :=
  u.Updated t → ∀ previous, u.state.options = some previous → ¬ previous.Clashes u.options

section Turns

variable {t : Toolchain σ ρ φ υ} {u : Turn σ ρ φ υ} {c' : Compilation ρ φ υ}

/-- What a turn brought up to date, taken apart. -/
theorem Turn.updated?_eq_some_iff : u.updated? t = some c' ↔
    ∃ c plan w', u.state.continued? u.options = some c ∧
      c.update t.engine u.options u.world = (.ok (plan, c'), w') := by
  rw [updated?, Option.bind_eq_some_iff]
  constructor
  · rintro ⟨c, hc, hmap⟩
    obtain ⟨⟨plan, d⟩, hresult, rfl⟩ := Option.map_eq_some_iff.mp hmap
    rcases hupdate : c.update t.engine u.options u.world with ⟨e | r, w'⟩
    · rw [hupdate] at hresult
      exact absurd hresult (by simp [Except.toOption])
    · rw [hupdate] at hresult
      obtain rfl := Option.some.inj hresult
      exact ⟨c, plan, w', hc, hupdate⟩
  · rintro ⟨c, plan, w', hc, hupdate⟩
    refine ⟨c, hc, ?_⟩
    rw [hupdate]
    rfl

/-- A turn that brought a compilation up to date leaves it, with the request. -/
theorem Turn.state_of_updated (h : u.updated? t = some c') :
    (u.outcome t).state.compilation = some c' ∧
      (u.outcome t).state.options = some u.options := by
  obtain ⟨c, plan, w', hold, hupdate⟩ := updated?_eq_some_iff.mp h
  obtain houtcome | ⟨k, houtcome⟩ := outcome_of_update hold hupdate
  · obtain ⟨kept, after, hstate, -⟩ := OutputState.emitUnit_frame t u.options c'.unit
      (plan.report .emitted) (u.state.advance u.options c') w'
    rw [houtcome, hstate]
    exact ⟨rfl, rfl⟩
  · rw [houtcome, (OutputState.reuse_frame _ _ _ _ _).1]
    exact ⟨rfl, rfl⟩

/-- Every turn of a run is the next turn of a shorter run. -/
theorem Run.of_mem {turns : List (Turn σ ρ φ υ)} {s : OutputState ρ φ υ} {engine : σ}
    (run : Run t turns s engine) (hu : u ∈ turns) :
    ∃ later earlier, turns = later ++ u :: earlier ∧ Run t earlier u.state u.world.engine := by
  induction run with
  | start => exact absurd hu List.not_mem_nil
  | @next turns s engine run o host ih =>
      rcases List.mem_cons.mp hu with rfl | hu
      · exact ⟨[], turns, rfl, run⟩
      · obtain ⟨later, earlier, rfl, hrun⟩ := ih hu
        exact ⟨_ :: later, earlier, rfl, hrun⟩

end Turns

/-! ### In sync -/

/-- The file trees that turns meet: nothing happens to them in the meantime, and a place shows
other contents only with another time. -/
structure Moments (turns : List (Turn σ ρ φ υ)) : Prop where
  quiet : ∀ u ∈ turns, u.world.host.interference = []
  dated : ∀ u ∈ turns, ∀ v ∈ turns, Files.Dated u.world.host.files v.world.host.files

/-- A state whose compilation is in line with the files of the turn that last reached it; its unit
is as long as no turn dropped a path that clashes. -/
def InSync (t : Toolchain σ Path ParsedSource CommandUnit)
    (turns : List (Turn σ Path ParsedSource CommandUnit))
    (s : OutputState Path ParsedSource CommandUnit) : Prop :=
  ∀ c, s.compilation = some c → ∃ v ∈ turns, s.options = some v.options ∧
    c.InLine v.options v.world.host.files ∧
    ((∀ u ∈ turns, u.Clear t) → c.unit.Shows v.options v.world.host.files)

section Sync

variable {command : Compiler} {converter : Converter}
  {turns : List (Turn σ Path ParsedSource CommandUnit)}
  {s : OutputState Path ParsedSource CommandUnit} {engine : σ}
  {u : Turn σ Path ParsedSource CommandUnit} {c : Compilation Path ParsedSource CommandUnit}

/-- Fewer turns have their moments among those of more. -/
theorem Moments.of_append (later : List (Turn σ ρ φ υ)) {earlier : List (Turn σ ρ φ υ)}
    (h : Moments (later ++ earlier)) : Moments earlier :=
  ⟨fun u hu => h.quiet u (List.mem_append_right later hu), fun u hu v hv =>
    h.dated u (List.mem_append_right later hu) v (List.mem_append_right later hv)⟩

/-- **Update in sync.** What a turn brings up to date from a state in sync is in line with its
files. Its unit is if no turn dropped a path that clashes, and it is not if this turn did. -/
theorem InSync.updated (h : InSync ⟨Command.engine command, converter⟩ turns u.state)
    (hmoments : Moments (u :: turns))
    (hupdated : u.updated? ⟨Command.engine command, converter⟩ = some c) :
    c.InLine u.options u.world.host.files ∧
      ((∀ v ∈ u :: turns, v.Clear ⟨Command.engine command, converter⟩) →
        c.unit.Shows u.options u.world.host.files) ∧
      (c.unit.Shows u.options u.world.host.files →
        u.Clear ⟨Command.engine command, converter⟩) := by
  obtain ⟨d, plan, w', hold, hupdate⟩ := Turn.updated?_eq_some_iff.mp hupdated
  obtain ⟨previous, hprevious, hsame, hd⟩ := OutputState.continued?_eq_some hold
  obtain ⟨v, hv, hoptions, hline, hshows⟩ := h d hd
  obtain rfl : previous = v.options := Option.some.inj (hprevious.symm.trans hoptions)
  have hdir : v.options.workDirectory = u.options.workDirectory := by
    simp only [BuildOptions.sameIdentity, Bool.and_eq_true, beq_iff_eq] at hsame
    exact hsame.1.1.1.1
  obtain ⟨hline', hshows', hnot⟩ := Command.update_inLine
    (hmoments.quiet u List.mem_cons_self) hline hdir
    (hmoments.dated v (List.mem_cons_of_mem u hv) u List.mem_cons_self) hupdate
  refine ⟨hline', fun hclear => ?_, fun hu => ?_⟩
  · refine hshows' (hshows fun b hb => hclear b (List.mem_cons_of_mem u hb)) ?_
    exact hclear u List.mem_cons_self (by rw [Turn.Updated, hupdated]; rfl) _ hoptions
  · intro _ previous hp
    obtain rfl := Option.some.inj (hprevious.symm.trans hp)
    exact fun hclash => hnot hclash hu

/-- **Step.** One more turn leaves a state in sync. -/
theorem InSync.step (h : InSync ⟨Command.engine command, converter⟩ turns u.state)
    (hmoments : Moments (u :: turns)) :
    InSync ⟨Command.engine command, converter⟩ (u :: turns)
      (u.outcome ⟨Command.engine command, converter⟩).state := by
  set t : Toolchain σ Path ParsedSource CommandUnit := ⟨Command.engine command, converter⟩ with ht
  -- A turn that is refused leaves the state in sync with the turn it was in sync with.
  have hkeep : InSync t (u :: turns) u.state := by
    intro c hc
    obtain ⟨v, hv, hoptions, hline, hshows⟩ := h c hc
    exact ⟨v, List.mem_cons_of_mem u hv, hoptions, hline,
      fun hclear => hshows fun b hb => hclear b (List.mem_cons_of_mem u hb)⟩
  have hupdated : ∀ c, u.updated? t = some c → InSync t (u :: turns) (u.outcome t).state := by
    intro c hc d hd
    obtain ⟨hcompilation, hoptions⟩ := Turn.state_of_updated hc
    obtain rfl := Option.some.inj (hcompilation.symm.trans hd)
    obtain ⟨hline, hshows, -⟩ := h.updated hmoments hc
    exact ⟨u, List.mem_cons_self, hoptions, hline, hshows⟩
  have hcourse : Course t u.options u.state u.world (u.outcome t) :=
    OutputState.course_build t u.options u.state u.world
  generalize hout : u.outcome t = out at hcourse
  cases hcourse with
  | unfounded => exact hkeep
  | stuck => exact hkeep
  | @founded c w' new create =>
      intro d hd
      obtain ⟨kept, after, hstate, -⟩ := OutputState.emitUnit_frame t u.options c.unit
        { kind := .full, source := .emitted } (u.state.found u.options c) w'
      rw [hstate] at hd ⊢
      obtain rfl : c = d := Option.some.inj hd
      obtain ⟨hline, hshows⟩ :=
        Command.create_inLine (hmoments.quiet u List.mem_cons_self) create
      exact ⟨u, List.mem_cons_self, rfl, hline, fun _ => hshows⟩
  | @emitted c c' plan w' old update =>
      rw [← hout]
      exact hupdated c' (Turn.updated?_eq_some_iff.mpr ⟨c, plan, w', old, update⟩)
  | @reused c c' plan w' k old update =>
      rw [← hout]
      exact hupdated c' (Turn.updated?_eq_some_iff.mpr ⟨c, plan, w', old, update⟩)

/-- Every state of a run is in sync. -/
theorem Run.inSync (run : Run ⟨Command.engine command, converter⟩ turns s engine)
    (hmoments : Moments turns) : InSync ⟨Command.engine command, converter⟩ turns s := by
  induction run with
  | start =>
      intro c hc
      exact absurd hc (by simp)
  | @next turns s engine run o host ih =>
      have h := ih (.of_append [⟨o, s, ⟨host, engine⟩⟩] hmoments)
      exact InSync.step (u := ⟨o, s, ⟨host, engine⟩⟩) h hmoments

/-- **Incremental and full.** All incremental builds of a run that get past their inputs end with
the sources and references of the unit that is built from scratch from the same files, exactly when
none of them drops a path that is resolved to the place of one that it lists. -/
theorem Run.units_match_iff (run : Run ⟨Command.engine command, converter⟩ turns s engine)
    (hmoments : Moments turns) :
    (∀ u ∈ turns, u.Updated ⟨Command.engine command, converter⟩ →
      ∃ c fresh w', (u.outcome ⟨Command.engine command, converter⟩).state.compilation = some c ∧
        Compilation.create (Command.engine command) u.options u.world = (.ok fresh, w') ∧
        c.unit.Matches fresh.unit) ↔
    ∀ u ∈ turns, u.Updated ⟨Command.engine command, converter⟩ →
      ∃ previous, u.state.options = some previous ∧ ¬ previous.Clashes u.options := by
  set t : Toolchain σ Path ParsedSource CommandUnit := ⟨Command.engine command, converter⟩ with ht
  constructor
  · intro h u hu hupdated
    obtain ⟨c, fresh, w', hc, hcreate, hmatches⟩ := h u hu hupdated
    obtain ⟨d, hd⟩ := Option.isSome_iff_exists.mp hupdated
    obtain rfl := Option.some.inj ((Turn.state_of_updated hd).1.symm.trans hc)
    obtain ⟨later, earlier, rfl, hrun⟩ := run.of_mem hu
    have hmoments := Moments.of_append later hmoments
    obtain ⟨-, -, hclear⟩ := (hrun.inSync (.of_append [u] hmoments)).updated hmoments hd
    obtain ⟨-, hfresh⟩ := Command.create_inLine (hmoments.quiet u List.mem_cons_self) hcreate
    obtain ⟨_, _, _, hold, -⟩ := Turn.updated?_eq_some_iff.mp hd
    obtain ⟨previous, hprevious, -⟩ := OutputState.continued?_eq_some hold
    exact ⟨previous, hprevious, hclear (hfresh.matches_iff.mp hmatches) hupdated previous hprevious⟩
  · intro h u hu hupdated
    obtain ⟨c, hc⟩ := Option.isSome_iff_exists.mp hupdated
    have hclear : ∀ v ∈ turns, v.Clear t := by
      intro v hv hupdated previous hprevious
      obtain ⟨_, hoptions, hnot⟩ := h v hv hupdated
      obtain rfl := Option.some.inj (hoptions.symm.trans hprevious)
      exact hnot
    obtain ⟨later, earlier, rfl, hrun⟩ := run.of_mem hu
    have hmoments := Moments.of_append later hmoments
    have hquiet := hmoments.quiet u List.mem_cons_self
    obtain ⟨hline, hshows, -⟩ := (hrun.inSync (.of_append [u] hmoments)).updated hmoments hc
    obtain ⟨fresh, w', hcreate⟩ := Command.exists_create command hquiet hline
    obtain ⟨-, hfresh⟩ := Command.create_inLine hquiet hcreate
    refine ⟨c, fresh, w', (Turn.state_of_updated hc).1, hcreate, hfresh.matches_iff.mpr ?_⟩
    exact hshows fun v hv => hclear v (List.mem_append_right later hv)

end Sync

/-! ### A source that is spelled another way -/

namespace Respelled

/-- An engine whose compiler is not there, so that it emits nothing. -/
def toolchain : Toolchain Unit Path ParsedSource CommandUnit :=
  ⟨Command.engine ({ program := ⟨"/none"⟩ } : CompilerCommand), .exiting 0⟩

/-- A host with one source. -/
def host : Host :=
  { files := { entries := [(["a.cs"], .file (Bytes.ofString "A") ⟨1⟩ false)] } }

/-- A request with sources. -/
def request (files : List String) : BuildOptions :=
  { workDirectory := "/", output := "out", files }

/-- The first turn names the source. -/
def first : Turn Unit Path ParsedSource CommandUnit := ⟨request ["a.cs"], {}, ⟨host, ()⟩⟩

/-- The second turn names it with a dot in front. -/
def second : Turn Unit Path ParsedSource CommandUnit :=
  first.follow toolchain (request ["./a.cs"]) host

/-- The two turns are a run. -/
theorem run : Run toolchain [second, first] (second.outcome toolchain).state
    (second.outcome toolchain).world.engine := by
  have h : Run toolchain [first] (first.outcome toolchain).state
      (first.outcome toolchain).world.engine := Run.first toolchain rfl
  unfold second
  exact h.follow _ _

/-- Both turns meet the same host. -/
theorem moments : Moments [second, first] := by
  have hhost : ∀ u ∈ [second, first], u.world.host = host := by
    intro u hu
    rcases List.mem_pair.mp hu with rfl | rfl
    · rw [second]
      rfl
    · rfl
  have hepoch : ∀ loc c, host.files.contentsAt? loc = some c →
      host.files.timeAt? loc ≠ some .epoch := by
    intro loc c hc
    rw [Files.contentsAt?, Files.at?] at hc
    by_cases hroot : loc = []
    · rw [if_pos hroot] at hc
      exact absurd hc (by simp)
    · rw [if_neg hroot] at hc
      by_cases hfile : loc = ["a.cs"]
      · subst hfile
        decide
      · simp [host, List.lookup_cons, beq_eq_false_iff_ne.mpr hfile] at hc
  refine ⟨fun u hu => ?_, fun u hu v hv => ?_⟩
  · rw [hhost u hu]
    rfl
  · rw [hhost u hu, hhost v hv]
    exact Files.Dated.refl hepoch

/-- The second turn drops the first spelling, which is resolved to the place of the second. -/
theorem matches_iff_no_clash :
    second.Updated toolchain ∧
      ((∀ u ∈ [second, first], u.Updated toolchain → ∃ c fresh w',
          (u.outcome toolchain).state.compilation = some c ∧
          Compilation.create toolchain.engine u.options u.world = (.ok fresh, w') ∧
          c.unit.Matches fresh.unit) ↔
        ∀ u ∈ [second, first], u.Updated toolchain →
          ∃ previous, u.state.options = some previous ∧ ¬ previous.Clashes u.options) := by
  refine ⟨?_, Run.units_match_iff run moments⟩
  decide +kernel

/-- The unit of the second turn lacks the source, which a build from scratch has. -/
theorem unit_lost_source :
    Run toolchain [second, first] (second.outcome toolchain).state
        (second.outcome toolchain).world.engine ∧
      Moments [second, first] ∧ second.Updated toolchain ∧
      ((second.outcome toolchain).state.compilation.bind
        fun c => c.unit.sources.find? ⟨"/a.cs"⟩) = none ∧
      ((Compilation.create toolchain.engine second.options second.world).1.toOption.bind
        fun c => c.unit.sources.find? ⟨"/a.cs"⟩) = some "A" := by
  refine ⟨run, moments, ?_, ?_, ?_⟩
  all_goals decide +kernel

end Respelled
end IncrementalBuild
