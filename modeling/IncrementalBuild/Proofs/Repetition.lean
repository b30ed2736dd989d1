import IncrementalBuild.Proofs.Delivery
/-!
# Repeating a request that succeeded

A request that succeeded can be repeated any number of times. While its inputs show the times that
were committed, and its policy lets kept bytes stand in, every repetition writes the bytes of the
last emit again and asks the engine for nothing. It finds what was committed to the letter, since a
path is spelled as the request mentions it first, after a full build as after any other.

## Main definitions

* `Snapshot.Lists` — a snapshot of listed paths, each spelled as it is first mentioned.
* `OutputState.Ready` — a state that has all that a request needs to be answered again.
* `Turn.repetitions` — a request repeated after a turn, in any worlds.
* `Turn.Unmoved`, `Turn.CanWrite` — a turn that finds its inputs as they were committed, and one
  whose kept bytes can be written.
* `Turn.Repeats` — a turn that succeeds without the engine, by writing what a state keeps.

## Main results

* `Turn.ready_of_success` — a turn that succeeds leaves a state that is ready for its request.
* `Turn.Unmoved.found`, `Turn.outcome_of_ready` — what a repetition finds, and what it does.
* `Turn.success_idempotent` — all repetitions of a request that succeeded.
-/

namespace IncrementalBuild

variable {σ ρ φ υ : Type}

/-! ### Snapshots of listed paths -/

namespace Snapshot

/-- A snapshot of listed paths, each spelled as it is first mentioned. -/
structure Lists (s : Snapshot) (paths : List Path) : Prop where
  sorted : s.Sorted
  spelled : ∀ p, (s.stamp? p).map FileStamp.path = mention? paths p

variable {a b s : Snapshot} {paths : List Path}

/-- What is captured lists the paths that are asked for. -/
theorem lists_capture (base : Path) (paths : List Path) (h : Host) :
    (capture base paths h).1.Lists paths := by
  refine ⟨sorted_capture base paths h, fun p => ?_⟩
  rw [capture, stamp?_ofStamps]
  exact FileStamp.map_firstFor_captureAll base paths h p

/-- Repetitions do not matter for what is listed. -/
theorem Lists.of_distinct (h : s.Lists (distinct paths)) : s.Lists paths :=
  ⟨h.sorted, fun p => by rw [h.spelled, mention?_distinct]⟩

/-- A stamp is known from its path and its time. -/
theorem stamp?_eq_of_time? {p : Path} (hpath : (a.stamp? p).map FileStamp.path =
    (b.stamp? p).map FileStamp.path) (htime : a.time? p = b.time? p) :
    a.stamp? p = b.stamp? p := by
  rw [time?, time?] at htime
  rcases ha : a.stamp? p with _ | ⟨q, x⟩ <;> rcases hb : b.stamp? p with _ | ⟨r, y⟩ <;>
    simp_all

/-- **Listed alike.** Snapshots of the same paths are the same when they show the same time for
every listed one. -/
theorem Lists.eq_of_time? (ha : a.Lists paths) (hb : b.Lists paths)
    (h : ∀ p ∈ paths, a.time? p = b.time? p) : a = b := by
  refine eq_of_stamp? ha.sorted hb.sorted fun p => ?_
  refine stamp?_eq_of_time? ((ha.spelled p).trans (hb.spelled p).symm) ?_
  rcases hp : mention? paths p with _ | q
  · have hna := ha.spelled p
    have hnb := hb.spelled p
    rw [hp, Option.map_eq_none_iff] at hna hnb
    rw [time?, time?, hna, hnb]
  · rw [time?_congr a (same_of_mention? hp), time?_congr b (same_of_mention? hp)]
    exact h q (mem_of_mention? hp)

end Snapshot

/-! ### Nothing to change -/

/-- A compilation that finds what was committed is brought up to date as it is. -/
theorem Compilation.update_of_found (engine : Engine σ ρ φ υ) {o : BuildOptions}
    {c : Compilation ρ φ υ} {plan : Plan} {w w' : World σ} {references sources : Snapshot}
    (hreferences : c.referenceBaseline = ⟨some references⟩)
    (hsources : c.sourceBaseline = ⟨some sources⟩) (hplan : c.plan o w = (.ok plan, w'))
    (hr : plan.referenceSnapshot = references) (hs : plan.sourceSnapshot = sources) :
    plan.references = {} ∧ plan.sources = {} ∧
      c.update engine o w = (.ok (plan, c), w') := by
  obtain ⟨_, _, -, -, hfound, -⟩ := plan_eq_ok hplan
  have hreferences' : plan.references = {} := by
    rw [hfound] at hr ⊢
    dsimp only at hr ⊢
    rw [hr, hreferences]
    exact Changes.between_self references
  have hsources' : plan.sources = {} := by
    rw [hfound] at hs ⊢
    dsimp only at hs ⊢
    rw [hs, hsources]
    exact Changes.between_self sources
  have hprepare : plan.prepare engine o w' = (.ok ⟨.ofList [], .ofList []⟩, w') := by
    rw [Plan.prepare, Plan.prepareBy, hreferences', hsources', resolveAll, parseAll,
      Task.bind_apply, show ({} : Changes).touched = [] from rfl, gatherAll_nil]
    dsimp only
    rw [Task.bind_apply, gatherAll_nil]
    rfl
  have happly : c.apply engine plan ⟨.ofList [], .ofList []⟩ w' = (.ok c, w') := by
    rw [apply, hreferences', hsources', hr, hs, hreferences, hsources]
    rw [Baseline.commit, Baseline.commit, ← hreferences, ← hsources]
    rfl
  exact ⟨hreferences', hsources', update_of_steps hplan hprepare happly⟩

/-! ### States that are ready -/

/-- A state that has all that a request needs to be answered again: the request, snapshots of the
paths that it lists, and kept bytes of its mode. -/
structure OutputState.Ready (s : OutputState ρ φ υ) (o : BuildOptions) : Prop where
  options : s.options = some o
  baselines : ∃ references sources,
    s.baselines? = some (⟨some references⟩, ⟨some sources⟩) ∧
      references.Lists o.referencePaths ∧ sources.Lists o.sourcePaths
  kept : ∃ k, s.kept = some k ∧ k.mode = o.debugSymbols

/-- A report does not matter for what is ready. -/
theorem OutputState.Ready.with_report {s : OutputState ρ φ υ} {o : BuildOptions} (h : s.Ready o)
    (report : Option Report) : ({ s with report } : OutputState ρ φ υ).Ready o :=
  ⟨h.options, h.baselines, h.kept⟩

/-- A label does not matter for what is ready. -/
theorem OutputState.Ready.of_plain {s : OutputState ρ φ (Labelled υ)} {o : BuildOptions}
    (h : s.plain.Ready o) : s.Ready o := by
  obtain ⟨references, sources, hbaselines, hlists⟩ := h.baselines
  rw [OutputState.baselines?, OutputState.plain, Option.map_map] at hbaselines
  exact ⟨h.options, ⟨references, sources, hbaselines, hlists⟩, h.kept⟩

namespace Turn

variable {t : Toolchain σ ρ φ υ} {u v : Turn σ ρ φ υ} {s : OutputState ρ φ υ}

/-- A turn sets snapshots of the paths that its request lists. -/
theorem renewed_lists (u : Turn σ ρ φ υ) : ∃ references sources,
    u.renewed = (⟨some references⟩, ⟨some sources⟩) ∧
      references.Lists u.options.referencePaths ∧ sources.Lists u.options.sourcePaths := by
  rw [renewed]
  split
  · next plan hplan =>
      rw [plan?] at hplan
      obtain ⟨c, -, rfl⟩ := Option.map_eq_some_iff.mp hplan
      exact ⟨_, _, rfl, Snapshot.lists_capture _ _ _, Snapshot.lists_capture _ _ _⟩
  · exact ⟨_, _, rfl, (Snapshot.lists_capture _ _ _).of_distinct,
      (Snapshot.lists_capture _ _ _).of_distinct⟩

/-- **Success.** A turn that succeeds leaves a state that is ready for its request. -/
theorem ready_of_success {r : BuildResult} (hr : (u.outcome t).result = .ok r)
    (hsucceeded : r.succeeded = true) : (u.outcome t).state.Ready u.options := by
  obtain ⟨hnot, -⟩ | ⟨-, hsettled⟩ := u.settled t
  · exact absurd (took_of_ok hr) hnot
  have hkept : ∃ k, (u.outcome t).state.kept = some k := by
    obtain ⟨_, _, k, hmakes⟩ | ⟨k, _, hrewrites⟩ := makes_or_rewrites hr hsucceeded
    · exact ⟨k, hmakes.stored⟩
    · exact ⟨k, hrewrites.stored⟩
  obtain ⟨k, hk⟩ := hkept
  obtain ⟨references, sources, hrenewed, hlists⟩ := u.renewed_lists
  exact ⟨hsettled.options, ⟨references, sources, hrenewed ▸ hsettled.baselines, hlists⟩,
    ⟨k, hk, hsettled.kept k hk⟩⟩

/-! ### One repetition -/

/-- A turn that finds every input that it lists with the time that a state shows for it. -/
structure Unmoved (s : OutputState ρ φ υ) (v : Turn σ ρ φ υ) : Prop where
  references : ∀ committed, s.references? = some committed →
    ∀ p ∈ v.options.referencePaths, v.references.time? p = committed.time? p
  sources : ∀ committed, s.sources? = some committed →
    ∀ p ∈ v.options.sourcePaths, v.sources.time? p = committed.time? p

/-- A label does not matter for what moved. -/
theorem Unmoved.of_plain {watched : Turn (Ledger σ ρ φ) ρ φ (Labelled υ)}
    (h : Unmoved watched.plain.state watched.plain) : Unmoved watched.state watched := by
  have hreferences : watched.plain.state.references? = watched.state.references? := by
    rw [plain, OutputState.plain, OutputState.references?, Option.bind_map]
    rfl
  have hsources : watched.plain.state.sources? = watched.state.sources? := by
    rw [plain, OutputState.plain, OutputState.sources?, Option.bind_map]
    rfl
  refine ⟨fun committed hcommitted => ?_, fun committed hcommitted => ?_⟩
  · exact h.references committed (hreferences.trans hcommitted)
  · exact h.sources committed (hsources.trans hcommitted)

/-- A turn whose kept bytes can be written, once it has looked at its inputs. -/
def CanWrite (v : Turn σ ρ φ υ) : Prop :=
  ∀ k, v.state.kept = some k → (k.write v.options v.looked.host).1 = .ok ()

/-- **To the letter.** A turn that finds its inputs as its state shows them finds the committed
snapshots, if they list its paths. -/
theorem Unmoved.found {c : Compilation ρ φ υ} {references sources : Snapshot}
    (h : v.Unmoved v.state) (hc : v.state.compilation = some c)
    (hreferences : c.referenceBaseline = ⟨some references⟩)
    (hsources : c.sourceBaseline = ⟨some sources⟩)
    (hr : references.Lists v.options.referencePaths) (hs : sources.Lists v.options.sourcePaths) :
    v.references = references ∧ v.sources = sources := by
  have hreferences' : v.state.references? = some references := by
    rw [OutputState.references?, hc, Option.bind_some, Compilation.references?, hreferences]
  have hsources' : v.state.sources? = some sources := by
    rw [OutputState.sources?, hc, Option.bind_some, Compilation.sources?, hsources]
  exact ⟨(Snapshot.lists_capture _ _ _).eq_of_time? hr (h.references references hreferences'),
    (Snapshot.lists_capture _ _ _).eq_of_time? hs (h.sources sources hsources')⟩

/-- **Repetition.** A turn whose state is ready, and which finds its inputs as they were committed,
writes the kept bytes and does nothing else. -/
theorem outcome_of_ready (t : Toolchain σ ρ φ υ) (hready : v.state.Ready v.options)
    (hpolicy : v.options.outputReuse ≠ .none) (hunmoved : v.Unmoved v.state) :
    ∃ k, v.state.kept = some k ∧
      v.outcome t = OutputState.reuse v.options k { kind := .incremental, source := .reused }
        v.state v.looked := by
  obtain ⟨hoptions, ⟨references, sources, hbaselines, hr, hs⟩, k, hk, hmode⟩ := hready
  obtain ⟨c, hc, hpair⟩ := Option.map_eq_some_iff.mp hbaselines
  obtain ⟨hreferences, hsources⟩ := Prod.mk.inj hpair
  have hold : v.state.continued? v.options = some c := by
    rw [OutputState.continued?, hoptions]
    dsimp only
    rw [if_pos (BuildOptions.sameIdentity_refl _), hc]
  obtain ⟨plan, hplan, hlooked⟩ := exists_plan hold
  have hfound := hunmoved.found hc hreferences hsources hr hs
  rw [plan?, hold] at hplan
  have hsnapshots : plan.referenceSnapshot = references ∧ plan.sourceSnapshot = sources := by
    obtain rfl := Option.some.inj hplan
    exact hfound
  obtain ⟨hnone, hnone', hupdate⟩ := Compilation.update_of_found t.engine hreferences hsources
    hlooked hsnapshots.1 hsnapshots.2
  have hallows : v.options.outputReuse.allows plan.references plan.sources = true := by
    rw [hnone, hnone']
    rcases hcase : v.options.outputReuse with _ | _ | _
    · exact absurd hcase hpolicy
    · rfl
    · rfl
  have hreusable : v.state.reusable? v.options plan.references plan.sources = some k := by
    rw [OutputState.reusable?, if_pos hallows, hk, Option.filter_some, KeptOutput.fits, hmode]
    simp
  refine ⟨k, hk, ?_⟩
  have hadvance : v.state.advance v.options c = v.state := by
    rw [OutputState.advance, ← hoptions, ← hc]
  rw [outcome_of_reusable hold hupdate hreusable, hadvance, Plan.report, hnone, hnone']

/-- A turn that succeeds without any call of its engine: it writes the bytes that a state keeps and
leaves the state as it was, but for the report. -/
structure Repeats (t : Toolchain σ ρ φ υ) (s : OutputState ρ φ υ) (v : Turn σ ρ φ υ) : Prop where
  result : (v.outcome t).result = .ok .success
  written : ∃ k, s.kept = some k ∧
    k.write v.options v.looked.host = (.ok (), (v.outcome t).world.host)
  calls : ∀ watched : Turn (Ledger σ ρ φ) ρ φ (Labelled υ), watched.plain = v →
    (watched.outcome t.watched).world.engine.calls = watched.world.engine.calls
  engine : (v.outcome t).world.engine = v.world.engine
  state : (v.outcome t).state =
    { s with report := some { kind := .incremental, source := .reused } }

/-- A turn whose state is ready leaves what its engine keeps for itself. -/
theorem engine_of_ready (t : Toolchain σ ρ φ υ) (hready : v.state.Ready v.options)
    (hpolicy : v.options.outputReuse ≠ .none) (hunmoved : v.Unmoved v.state) :
    (v.outcome t).world.engine = v.world.engine := by
  obtain ⟨k, -, houtcome⟩ := outcome_of_ready t hready hpolicy hunmoved
  rw [houtcome, (OutputState.reuse_frame _ _ _ _ _).2, looked]
  split <;> rfl

/-- **Step.** A turn repeats what was done when its state is ready, its inputs are as they were
committed and its bytes can be written. -/
theorem repeats_of_ready (hready : v.state.Ready v.options)
    (hpolicy : v.options.outputReuse ≠ .none) (hunmoved : v.Unmoved v.state)
    (hwrite : v.CanWrite) : v.Repeats t v.state := by
  obtain ⟨k, hk, houtcome⟩ := outcome_of_ready t hready hpolicy hunmoved
  have hresult : (v.outcome t).result = .ok .success := by
    rw [houtcome]
    exact OutputState.reuse_of_ok (hwrite k hk)
  refine ⟨hresult, ⟨k, hk, ?_⟩, ?_, engine_of_ready t hready hpolicy hunmoved, ?_⟩
  · rw [houtcome] at hresult ⊢
    exact OutputState.reuse_eq_ok hresult
  · -- What the turn decides does not depend on labels, so the watched turn goes the same way.
    rintro watched rfl
    exact congrArg Ledger.calls
      (engine_of_ready t.watched hready.of_plain hpolicy hunmoved.of_plain)
  · rw [houtcome, (OutputState.reuse_frame _ _ _ _ _).1]

/-! ### Any number of repetitions -/

/-- The request of a turn, repeated after it, each time in a world of its own. -/
def repetitions (t : Toolchain σ ρ φ υ) (u : Turn σ ρ φ υ) : List (World σ) → List (Turn σ ρ φ υ)
  | [] => []
  | w :: later =>
    let v : Turn σ ρ φ υ := ⟨u.options, (u.outcome t).state, w⟩
    v :: v.repetitions t later

/-- **Run.** All repetitions of a request after a turn that leaves a state ready for it repeat what
was done. -/
theorem repeats_of_mem_repetitions (hready : (u.outcome t).state.Ready u.options)
    (hpolicy : u.options.outputReuse ≠ .none) {worlds : List (World σ)}
    (hunmoved : ∀ v ∈ u.repetitions t worlds, v.Unmoved (u.outcome t).state)
    (hwrite : ∀ v ∈ u.repetitions t worlds, v.CanWrite) :
    ∀ v ∈ u.repetitions t worlds, v.Repeats t (u.outcome t).state := by
  induction worlds generalizing u with
  | nil => exact fun v hv => absurd hv List.not_mem_nil
  | cons w later ih =>
      rw [repetitions] at hunmoved hwrite ⊢
      set next : Turn σ ρ φ υ := ⟨u.options, (u.outcome t).state, w⟩ with hnext
      have hfirst : next.Repeats t (u.outcome t).state :=
        repeats_of_ready (v := next) hready hpolicy (hunmoved next List.mem_cons_self)
          (hwrite next List.mem_cons_self)
      -- The repetition changes the report only, so what held of the state it met still holds.
      have hready' : (next.outcome t).state.Ready next.options := by
        rw [hfirst.state]
        exact hready.with_report _
      have hlater := ih hready' hpolicy (fun v hv => ?_) fun v hv =>
        hwrite v (List.mem_cons_of_mem next hv)
      · intro v hv
        rcases List.mem_cons.mp hv with rfl | hv
        · exact hfirst
        · obtain ⟨hresult, hwritten, hcalls, hengine, hstate⟩ := hlater v hv
          rw [hfirst.state] at hwritten hstate
          exact ⟨hresult, hwritten, hcalls, hengine, hstate⟩
      · rw [hfirst.state]
        exact ⟨(hunmoved v (List.mem_cons_of_mem next hv)).references,
          (hunmoved v (List.mem_cons_of_mem next hv)).sources⟩

/-- **Idempotence.** After a turn that succeeded, whatever it met and however it was answered, its
request can be repeated any number of times. Let its policy be one of the two that let kept bytes
stand in, let every listed input show the time that the turn has captured for it, and let the bytes
be written. Then every repetition succeeds without a call of the engine: it writes the bytes that
the turn kept, and leaves all that the turn left but for the report. What else happened to the files
in between, the output among them, does not matter. -/
theorem success_idempotent {r : BuildResult} (hr : (u.outcome t).result = .ok r)
    (hsucceeded : r.succeeded = true)
    (hpolicy : u.options.outputReuse = .whenNoChange ∨
      u.options.outputReuse = .whenNoSourceChange) {worlds : List (World σ)}
    (hunmoved : ∀ v ∈ u.repetitions t worlds, v.Unmoved (u.outcome t).state)
    (hwrite : ∀ v ∈ u.repetitions t worlds, v.CanWrite) :
    ∀ v ∈ u.repetitions t worlds, v.Repeats t (u.outcome t).state := by
  refine repeats_of_mem_repetitions (ready_of_success hr hsucceeded) ?_ hunmoved hwrite
  rcases hpolicy with h | h <;> rw [h] <;> decide

end Turn

/-! ### An output that is lost and one that is overwritten -/

namespace Repeated

open Recording

/-- A request for a source whose symbols are converted. -/
def request : BuildOptions :=
  { workDirectory := "/", output := "out", files := ["a.cs"], debugSymbols := .converted
    outputReuse := .whenNoSourceChange }

/-- A host with the source, and with contents at the place of the output if there are any. -/
def host (output : Option Bytes) : Host :=
  { files := { entries := (["a.cs"], .file (Bytes.ofString "A") ⟨1⟩ false) ::
      (output.map fun b => (["out"], Entry.file b ⟨5⟩ false)).toList } }

/-- The source is built for the first time. Its symbols are not converted, since the converter
leaves no file. -/
def first : Turn State Reference Source RecordedUnit := ⟨request, {}, ⟨host none, {}⟩⟩

/-- Then the output is lost, and then something else is written over it. -/
def worlds : List (World State) :=
  [⟨host none, (first.outcome toolchain).world.engine⟩,
    ⟨host (some [1, 2, 3]), (first.outcome toolchain).world.engine⟩]

/-- What the source is compared with from the first build on. -/
theorem sources_first :
    (first.outcome toolchain).state.sources? = some ⟨[⟨⟨"a.cs"⟩, ⟨1⟩⟩]⟩ := by decide +kernel

/-- Both repetitions do what the first build did, without the engine. -/
theorem both_repeat :
    (first.outcome toolchain).result.toOption.map BuildResult.succeeded = some true ∧
      ((first.outcome toolchain).state.kept.bind KeptOutput.symbols) = none ∧
      (first.repetitions toolchain worlds).length = 2 ∧
      ∀ v ∈ first.repetitions toolchain worlds,
        v.Repeats toolchain (first.outcome toolchain).state := by
  have hresult : (first.outcome toolchain).result.toOption.map BuildResult.succeeded =
      some true := by decide +kernel
  have hkept : (first.outcome toolchain).state.kept.bind KeptOutput.symbols = none := by
    decide +kernel
  refine ⟨hresult, hkept, rfl, ?_⟩
  obtain ⟨r, hr, hsucceeded⟩ := Option.map_eq_some_iff.mp hresult
  refine Turn.success_idempotent (Task.toOption_eq_some.mp hr) hsucceeded (.inr rfl) ?_ ?_
  · intro v hv
    have hoptions : v.options = request := by
      rcases List.mem_pair.mp hv with rfl | rfl <;> rfl
    have htime : v.sources.time? ⟨"a.cs"⟩ = some ⟨1⟩ := by
      rcases List.mem_pair.mp hv with rfl | rfl <;> decide +kernel
    refine ⟨fun committed _ p hp => ?_, fun committed hcommitted p hp => ?_⟩
    · rw [hoptions] at hp
      exact absurd hp List.not_mem_nil
    · obtain rfl := Option.some.inj (sources_first.symm.trans hcommitted)
      rw [hoptions] at hp
      obtain rfl := List.mem_singleton.mp hp
      rw [htime]
      decide
  · intro v hv k hk
    have hwrite : (v.state.kept.bind fun k => (k.write v.options v.looked.host).1.toOption) =
        some () := by
      rcases List.mem_pair.mp hv with rfl | rfl <;> decide +kernel
    rw [hk] at hwrite
    exact Task.toOption_eq_some.mp hwrite

end Repeated
end IncrementalBuild
