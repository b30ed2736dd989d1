import IncrementalBuild.Programs
import IncrementalBuild.Proofs.Backing
/-!
# No edit is lost

Others may save listed files at any moment of a build and between builds, each time with a
modification time that the file never had. Whenever a file holds something else than what its handle
was parsed from, the baseline has another time for it than the file shows. The next build that lists
the file finds that, parses the file again, and does not answer with kept bytes.

## Main definitions

* `Turn.Redoes` — a turn builds a source again.

## Main results

* `Turn.changed_of_time`, `Turn.parsed_of_touched` — another time than the baseline has is a change,
  and what is found touched is parsed.
* `Turn.redoes_of_time` — a turn that finds another time than the baseline has builds the source
  again.
* `Run.no_edit_lost` — an edit that was not parsed shows in the time of its file, and the next turn
  builds the file again.
* `Saved.second_redoes` — saves during a build and after it.
-/

namespace IncrementalBuild

variable {σ ρ φ υ : Type}

/-! ### The next turn -/

/-- The stamp that a captured snapshot has for a path is that of its first mention. -/
theorem Snapshot.mention_of_stamp?_capture {base p : Path} {paths : List Path} {h : Host}
    {r : FileStamp} (hr : (capture base paths h).1.stamp? p = some r) :
    mention? paths p = some r.path := by
  rw [capture, stamp?_ofStamps] at hr
  rw [← FileStamp.map_firstFor_captureAll base paths h, hr]
  rfl

/-- A policy lets an earlier output stand in only when no source changed. -/
theorem ReusePolicy.isEmpty_of_allows {policy : ReusePolicy}
    {references sources : Changes} (h : policy.allows references sources = true) :
    sources.isEmpty = true := by
  cases policy with
  | none => exact absurd h (by simp [ReusePolicy.allows])
  | whenNoChange => exact (Bool.and_eq_true_iff.mp h).2
  | whenNoSourceChange => exact (Bool.and_eq_true_iff.mp h).1

namespace Turn

variable {t : Toolchain σ ρ φ υ} {u : Turn σ ρ φ υ} {c : Compilation ρ φ υ} {q : Path}

/-- A turn that continues a compilation looks at all its files before anything else. -/
theorem exists_gathered (looks : t.engine.OnlyLooks)
    (old : u.state.continued? u.options = some c) :
    ∃ n, (u.gathered t).host = u.world.host.elapse n ∧
      u.options.referencePaths.length + u.options.sourcePaths.length ≤ n := by
  obtain ⟨plan, hplan, hlooked⟩ := exists_plan old
  have hhost : u.looked.host = u.world.host.elapse
      (u.options.referencePaths.length + u.options.sourcePaths.length) := by
    rw [looked, hplan, Host.elapse_add]
  obtain ⟨m, hm⟩ := (Engine.gathers_prepare t.engine u.options plan u.looked).elapsed looks
  rw [hhost, ← Host.elapse_add] at hm
  refine ⟨_, ?_, Nat.le_add_right _ m⟩
  rw [← hm, gathered, old]
  dsimp only
  rw [Compilation.update, Task.bind_apply, hlooked]
  dsimp only
  rw [Task.bind_apply]
  rcases plan.prepare t.engine u.options u.looked with ⟨e | fresh, w⟩ <;> rfl

/-- The time that a turn finds of a source is that of the file at one of its looks. -/
theorem exists_time (steady : u.world.host.Steady) (hq : q ∈ distinct u.options.sourcePaths) :
    ∃ k ≤ u.options.referencePaths.length + u.options.sourcePaths.length,
      u.sources.time? q =
        some ((u.world.host.elapse k).files.timeOf (u.options.resolve q)) := by
  have hmention := mention?_of_mem_distinct hq
  have hshown : (u.sources.time? q).isSome = true :=
    Snapshot.time?_capture_isSome.mpr ⟨q, mem_of_mention? hmention, Path.same_refl q⟩
  obtain ⟨time, htime⟩ := Option.isSome_iff_exists.mp hshown
  obtain ⟨r, hr, rfl⟩ := Option.map_eq_some_iff.mp htime
  obtain rfl := Option.some.inj (hmention.symm.trans (Snapshot.mention_of_stamp?_capture hr))
  rw [sources, Snapshot.capture_snd] at hr
  obtain ⟨k, hk, hat⟩ := FileStamp.of_mem_captureAll
    (steady.elapse _) (Snapshot.mem_captureAll (List.mem_of_find?_eq_some hr))
  rw [← Host.elapse_add] at hat
  exact ⟨u.options.referencePaths.length + k, Nat.add_le_add_left hk _,
    htime.trans (congrArg some hat.symm)⟩

/-- The time that a turn finds of a source is that of the file at one of its moments. -/
theorem exists_moment (looks : t.engine.OnlyLooks) (steady : u.world.host.Steady)
    (old : u.state.continued? u.options = some c) (hq : q ∈ distinct u.options.sourcePaths) :
    ∃ later x earlier, u.moments t = later ++ x :: earlier ∧
      u.sources.time? q = some (x.timeOf (u.options.resolve q)) := by
  obtain ⟨k, hk, htime⟩ := exists_time steady hq
  obtain ⟨n, hn, hlooks⟩ := exists_gathered looks old
  obtain ⟨later, earlier, hmoments, -⟩ := moments_split hn (Nat.le_refl k) (hk.trans hlooks)
  exact ⟨later, _, earlier, hmoments, htime⟩

/-- A turn that builds a source again: it reports it as changed, parses it, and does not answer with
kept bytes. -/
structure Redoes (t : Toolchain σ ρ φ υ) (u : Turn σ ρ φ υ) (q : Path) : Prop where
  /-- The source is among what changed, in the plan and in the report. -/
  changed : ∃ plan, u.plan? = some plan ∧ q ∈ plan.sources.changed ∧
    ∀ r, u.report? t = some r → r.sources = plan.sources
  /-- The engine is asked for the source. -/
  wanted : q ∈ u.wanted.2
  /-- If the turn gets past its inputs, it leaves a handle that it parsed from the source. -/
  parsed : ∀ c', u.updated? t = some c' → ∃ w y w', t.engine.Gathers u.world w ∧
    t.engine.parseSource (u.options.resolve q) u.options.defines w = (.ok y, w') ∧
    c'.sources.find? q = some y
  emitted : ¬ u.Reused t

/-- A source that a turn finds touched is listed, before all sources that are equal. -/
theorem mention_of_touched {committed : Snapshot} {d : Path} (hsorted : committed.Sorted)
    (hd : d ∈ (Changes.between committed u.sources).touched) :
    mention? u.options.sourcePaths d = some d := by
  have hsources : u.sources.Sorted := Snapshot.sorted_capture _ _ _
  obtain ⟨r, hr, rfl⟩ := Changes.exists_stamp_of_mem_touched hsorted hsources hd
  exact Snapshot.mention_of_stamp?_capture (Snapshot.stamp?_of_mem hsources hr)

/-- Parsing sources, a turn gets each handle from its engine. -/
theorem parsed_of_mem {order : Schedule} {paths : List Path} {entries : List (Path × φ)}
    {w w' : World σ} {y : φ}
    (hw : t.engine.Gathers u.world w)
    (h : parseAll t.engine u.options order paths w = (.ok entries, w')) (hy : (q, y) ∈ entries) :
    ∃ v v', t.engine.Gathers u.world v ∧
      t.engine.parseSource (u.options.resolve q) u.options.defines v = (.ok y, v') := by
  have hkeeps : ∀ p v, t.engine.Gathers u.world v → t.engine.Gathers u.world
      ((do return (p, ← t.engine.parseSource (u.options.resolve p) u.options.defines) :
        Task σ (Path × φ)) v).2 := fun p v hv =>
    hv.trans (Task.Along.bind (R := t.engine.Gathers)
      (fun w => (Engine.Gathers.refl w).parseSource _ _) (fun _ => Task.Along.pure _) v)
  obtain ⟨got, hgot, hmem⟩ := mem_of_gatherAll h
  obtain ⟨-, hvalues, -⟩ := Task.forAll_eq_ok hkeeps hw hgot
  obtain ⟨p, -, v, hv, hvalue⟩ := hvalues _ (hmem _ hy)
  obtain ⟨z, v', hz, hpair⟩ := Task.bind_eq_ok (Prod.ext hvalue rfl)
  obtain ⟨heq, -⟩ := Task.pure_eq_ok hpair
  obtain ⟨rfl, rfl⟩ := Prod.mk.inj heq
  exact ⟨v, v', hv, hz⟩

section Touched

variable {previous : BuildOptions} {plan : Plan}

/-- The changes of the sources lead from the committed snapshot to what the turn finds. -/
theorem sources_of_plan? {committed : Snapshot} (old : u.state.continued? u.options = some c)
    (hplan : u.plan? = some plan) (hcommitted : c.sourceBaseline.committed = some committed) :
    plan.sources = .between committed u.sources := by
  rw [plan?, old] at hplan
  rw [← Option.some.inj hplan]
  dsimp only
  rw [Baseline.changesTo, hcommitted]

/-- Of equal paths that a request lists, the first one is found touched. -/
theorem eq_of_touched {d : Path} (old : u.state.continued? u.options = some c)
    (hplan : u.plan? = some plan) (hstep : c.InStep previous)
    (hq : q ∈ distinct u.options.sourcePaths) (hd : d ∈ plan.sources.touched)
    (hqd : q.same d = true) : q = d := by
  obtain ⟨-, committed, hcommitted, hsorted, -⟩ := hstep.sources
  rw [sources_of_plan? old hplan hcommitted] at hd
  have hmention := mention_of_touched hsorted hd
  rw [← mention?_congr _ hqd, mention?_of_mem_distinct hq] at hmention
  exact Option.some.inj hmention

/-- A turn that finds another time of a source than the baseline has plans to build it again. -/
theorem changed_of_time {time time' : Timestamp} (old : u.state.continued? u.options = some c)
    (hplan : u.plan? = some plan) (hstep : c.InStep previous)
    (hq : q ∈ distinct u.options.sourcePaths) (hold : c.sourceTime? q = some time)
    (hnew : u.sources.time? q = some time') (hne : time ≠ time') : q ∈ plan.sources.changed := by
  obtain ⟨-, committed, hcommitted, hsorted, -⟩ := hstep.sources
  have hsources : u.sources.Sorted := Snapshot.sorted_capture _ _ _
  rw [Compilation.sourceTime?, Compilation.sources?, hcommitted, Option.bind_some] at hold
  obtain ⟨d, hd, hqd⟩ := (Changes.exists_changed_iff hsorted hsources).mpr
    ⟨time, time', hold, hnew, hne⟩
  rw [← sources_of_plan? old hplan hcommitted] at hd
  obtain rfl := eq_of_touched old hplan hstep hq (List.mem_append_right _ hd) hqd
  exact hd

/-- A turn that gets past its inputs parsed each source that it found touched, and leaves the handle
of it. -/
theorem parsed_of_touched {c' : Compilation ρ φ υ} (old : u.state.continued? u.options = some c)
    (hplan : u.plan? = some plan) (hstep : c.InStep previous)
    (hq : q ∈ distinct u.options.sourcePaths) (htouched : q ∈ plan.sources.touched)
    (hc' : u.updated? t = some c') :
    ∃ v y v', t.engine.Gathers u.world v ∧
      t.engine.parseSource (u.options.resolve q) u.options.defines v = (.ok y, v') ∧
      c'.sources.find? q = some y := by
  obtain ⟨_, _, w', old', update⟩ := updated?_eq_some_iff.mp hc'
  obtain rfl := Option.some.inj (old.symm.trans old')
  obtain rfl := Option.some.inj (hplan.symm.trans (plan?_of_update old update))
  obtain ⟨fresh, w₁, w₂, hlooked, hprepare, happly⟩ := Compilation.update_eq_ok update
  have hfresh := (Plan.prepare_eq_ok hprepare).2
  obtain ⟨resolved, w₃, hresolved, hprepare⟩ := Task.bind_eq_ok hprepare
  obtain ⟨parsed, w₄, hparsed, hprepare⟩ := Task.bind_eq_ok hprepare
  obtain ⟨rfl, -⟩ := Task.pure_eq_ok hprepare
  obtain ⟨y, hy⟩ := hfresh q htouched
  obtain ⟨d, hentry, hqd⟩ := PathMap.exists_of_find?_ofList hy
  have hd := List.mem_map_of_mem hentry (f := Prod.fst)
  rw [map_fst_of_gatherAll hparsed] at hd
  obtain rfl := eq_of_touched old hplan hstep hq hd hqd
  have hgathers : t.engine.Gathers u.world w₃ := by
    have hplanned := Engine.gathers_plan t.engine u.options c u.world
    have hgot := Engine.gathers_resolveAll t.engine u.options w₁.host.resolving
      plan.references.touched w₁
    rw [hlooked] at hplanned
    rw [hresolved] at hgot
    exact hplanned.trans hgot
  obtain ⟨v, v', hv, hparse⟩ := parsed_of_mem hgathers hparsed hentry
  refine ⟨v, y, v', hv, hparse, ?_⟩
  rw [Compilation.apply, Task.onEngine, Prod.mk.injEq] at happly
  obtain rfl := Except.ok.inj happly.1
  obtain ⟨-, committed, hcommitted, -⟩ := hstep.sources
  have hsources : u.sources.Sorted := Snapshot.sorted_capture _ _ _
  have hchanges : plan.sources = c.sourceBaseline.changesTo u.sources := by
    rw [sources_of_plan? old hplan hcommitted, Baseline.changesTo, hcommitted]
  rw [hchanges] at htouched hfresh
  dsimp only
  rw [hchanges, hstep.sources.find?_apply_touched hsources hfresh htouched]
  exact hy

end Touched

/-- **Changes.** A turn that finds another time of a source than the baseline has builds the source
again. -/
theorem redoes_of_time {previous : BuildOptions} {time time' : Timestamp}
    (old : u.state.continued? u.options = some c) (hstep : c.InStep previous)
    (hq : q ∈ distinct u.options.sourcePaths) (hold : c.sourceTime? q = some time)
    (hnew : u.sources.time? q = some time') (hne : time ≠ time') : u.Redoes t q := by
  obtain ⟨plan, hplan, -⟩ := exists_plan old
  have hchanged := changed_of_time old hplan hstep hq hold hnew hne
  have htouched : q ∈ plan.sources.touched := List.mem_append_right _ hchanged
  refine ⟨⟨plan, hplan, hchanged, fun r hr => ?_⟩, ?_,
    fun _ => parsed_of_touched old hplan hstep hq htouched, fun hreused => ?_⟩
  · rw [report?_eq hr, promised, hplan]
    rfl
  · rw [wanted, hplan]
    exact htouched
  · obtain ⟨_, _, found, _, _, old', update, hk⟩ := reused_iff.mp hreused
    obtain rfl := Option.some.inj (hplan.symm.trans (plan?_of_update old' update))
    have hempty := ReusePolicy.isEmpty_of_allows (OutputState.reusable?_eq_some hk).1
    rw [Changes.isEmpty, Bool.and_eq_true, Bool.and_eq_true, List.isEmpty_iff,
      List.isEmpty_iff] at hempty
    rw [hempty.1.2] at hchanged
    exact List.not_mem_nil hchanged

end Turn

/-- **No edit is lost.** Take any run of an engine that reads its sources, while others save listed
files, at any moment and each time with a modification time that the file never had. When a file
holds something else by then than what its handle was parsed from, its time is not the one that the
baseline has. So the next turn of the same identity that lists the file builds it again, whatever is
saved in the meantime. -/
theorem Run.no_edit_lost {t : Toolchain σ ρ φ υ} {turns : List (Turn σ ρ φ υ)}
    {s : OutputState ρ φ υ} {engine : σ} {parsedFrom : φ → Bytes → Prop} {o : BuildOptions}
    {c : Compilation ρ φ υ} {p : Path} {y : φ} {fs : Files} {contents : Bytes}
    (run : Run t turns s engine) (reads : t.engine.Reads parsedFrom)
    (steady : ∀ u ∈ turns, u.world.host.Steady)
    (edits : Files.Edits (Turn.places turns) (fs :: Turn.history t turns))
    (ho : s.options = some o) (hc : s.compilation = some c) (hy : c.sources.find? p = some y)
    (hcontents : fs.contentsOf? (o.resolve p) = some contents) (hstale : ¬ parsedFrom y contents) :
    (∃ time, c.sourceTime? p = some time ∧ fs.timeOf (o.resolve p) ≠ time) ∧
    ∀ (next : Turn σ ρ φ υ) (q : Path), next.state = s → o.sameIdentity next.options = true →
      next.world.host.Steady → q ∈ distinct next.options.sourcePaths → p.same q = true →
      (fs.contentsOf? (next.options.resolve q)).isSome = true →
      Files.Edits (Turn.places (next :: turns)) (next.moments t ++ fs :: Turn.history t turns) →
      next.Redoes t q := by
  obtain ⟨_, hoptions, hstep, hbacked⟩ := run.backed reads steady hc
  obtain rfl := Option.some.inj (ho.symm.trans hoptions)
  obtain ⟨_, time, _, -, -, htime, -, -⟩ := hbacked p y hy
  refine ⟨⟨time, htime, fun hsame => hstale ?_⟩, ?_⟩
  · have hnow : Files.Edits (Turn.places turns) (fs :: [] ++ Turn.history t turns) := edits
    exact hbacked.parsed_of_time hy hnow (fun _ => id) (Path.same_refl p)
      (Option.isSome_of_eq_some hcontents) (hsame ▸ htime) List.mem_cons_self hcontents
  intro next q hstate same steady' hq hpq hfile edits'
  have old : next.state.continued? next.options = some c := by
    rw [hstate, OutputState.continued?, ho]
    dsimp only
    rw [if_pos same, hc]
  obtain ⟨later, x, earlier, hmoments, hnew⟩ := Turn.exists_moment reads.looks steady' old hq
  refine Turn.redoes_of_time old hstep hq ((c.sourceTime?_congr hpq).symm.trans htime) hnew ?_
  intro hsame
  -- From `fs` on to the look that took down the time, the file holds what was parsed.
  have hwindow : Files.Edits (Turn.places (next :: turns))
      (x :: (earlier ++ [fs]) ++ Turn.history t turns) := by
    rw [hmoments, List.append_assoc, List.cons_append] at edits'
    rw [List.cons_append, List.append_assoc]
    exact edits'.of_append
  have hfs : fs ∈ x :: (earlier ++ [fs]) := by simp
  have hqplace : next.options.resolve q ∈ Turn.places (next :: turns) :=
    List.mem_append_left _ (List.mem_map_of_mem (mem_of_mention? (mention?_of_mem_distinct hq)))
  have hxfile := (hwindow.isSome_eq hqplace (List.mem_append_left _ hfs)).trans hfile
  rw [← BuildOptions.resolve_of_sameIdentity same] at hxfile hfile hsame
  have hcurrent : fs.contentsOf? (o.resolve q) = some contents := by
    obtain ⟨d, hd⟩ := Option.isSome_iff_exists.mp hfile
    rw [hd, Files.contentsOf?_unique (o.resolve_same p q hpq) hcontents hd]
  exact hstale (hbacked.parsed_of_time hy hwindow (fun _ => List.mem_append_right _) hpq hxfile
    (hsame ▸ htime) hfs hcurrent)

/-! ### Saves during a build -/

namespace Saved

/-- An engine whose compiler is not there, so that it emits nothing. -/
def toolchain : Toolchain Unit Path ParsedSource CommandUnit :=
  ⟨Command.engine ({ program := ⟨"/none"⟩ } : CompilerCommand), .exiting 0⟩

/-- A tree with one source. -/
def files : Files := { entries := [(["a.cs"], .file (Bytes.ofString "A") ⟨1⟩ false)] }

/-- The first save comes after the time of the source was taken down, and before it is read. -/
def during : Save := ⟨⟨"/a.cs"⟩, Bytes.ofString "B", ⟨2⟩⟩

/-- The second save comes after the build. -/
def after : Save := ⟨⟨"/a.cs"⟩, Bytes.ofString "C", ⟨3⟩⟩

/-- A request with the source. -/
def request : BuildOptions := { workDirectory := "/", output := "out", files := ["a.cs"] }

/-- The first turn builds the source while it is saved. -/
def first : Turn Unit Path ParsedSource CommandUnit :=
  ⟨request, {}, ⟨{ files, interference := [{}, { saves := [during] }] }, ()⟩⟩

/-- What the files hold by the second turn. -/
def current : Files := (files.save during).save after

/-- The second turn builds the source again. -/
def second : Turn Unit Path ParsedSource CommandUnit :=
  first.follow toolchain request { files := current }

/-- The saves are edits. -/
theorem edits :
    Files.Edits [request.resolve ⟨"a.cs"⟩] [current, files.save during, files, files] := by
  have hstart : Files.Edits [request.resolve ⟨"a.cs"⟩] [files, files] :=
    .next (.start files) (fun _ _ => rfl) fun _ _ _ => .inl ⟨rfl, rfl⟩
  have hplace : files.locate during.path = .ok ["a.cs"] := by decide +kernel
  have hduring : Files.Edits [request.resolve ⟨"a.cs"⟩] [files.save during, files, files] := by
    refine hstart.save hplace (by decide +kernel) fun p hp _ b hb => ?_
    obtain rfl := List.mem_singleton.mp hp
    rcases List.mem_pair.mp hb with rfl | rfl <;> decide +kernel
  have hplace' : (files.save during).locate after.path = .ok ["a.cs"] := by decide +kernel
  refine hduring.save hplace' (by decide +kernel) fun p hp _ b hb => ?_
  obtain rfl := List.mem_singleton.mp hp
  rcases List.mem_cons.mp hb with rfl | hb
  · decide +kernel
  · rcases List.mem_pair.mp hb with rfl | rfl <;> decide +kernel

/-- The first turn is a run. -/
theorem run : Run toolchain [first] second.state second.world.engine :=
  Run.first toolchain rfl

/-- What the first turn sees. -/
theorem history_first : Turn.history toolchain [first] = [files.save during, files, files] := by
  have hlooks : first.world.host.interference.length -
      (first.gathered toolchain).host.interference.length = 2 := by decide +kernel
  rw [Turn.history, List.flatMap_cons, Turn.moments, hlooks]
  rfl

/-- What the second turn sees. -/
theorem moments_second : second.moments toolchain = [current] := by
  rw [Turn.moments, show second.world.host.interference.length = 0 from rfl, Nat.zero_sub]
  rfl

/-- The save during the build and the one after it are not lost: the second turn builds the source
again. -/
theorem second_redoes :
    ∃ c y, second.state.compilation = some c ∧ c.sources.find? ⟨"a.cs"⟩ = some y ∧ y.text = "B" ∧
      c.sourceTime? ⟨"a.cs"⟩ = some ⟨1⟩ ∧
      current.contentsOf? (request.resolve ⟨"a.cs"⟩) = some (Bytes.ofString "C") ∧
      second.Redoes toolchain ⟨"a.cs"⟩ := by
  have hhandle : (second.state.compilation.bind fun c => (c.sources.find? ⟨"a.cs"⟩).map fun y =>
      (y.text, c.sourceTime? ⟨"a.cs"⟩)) = some ("B", some ⟨1⟩) := by decide +kernel
  obtain ⟨c, hc, hhandle⟩ := Option.bind_eq_some_iff.mp hhandle
  obtain ⟨y, hy, hpair⟩ := Option.map_eq_some_iff.mp hhandle
  obtain ⟨htext, htime⟩ := Prod.mk.inj hpair
  have hcontents : current.contentsOf? (request.resolve ⟨"a.cs"⟩) = some (Bytes.ofString "C") := by
    decide +kernel
  have hstale : ¬ (Bytes.ofString "C").toString? = some y.text := by
    rw [htext]
    decide +kernel
  have hsteady : ∀ u ∈ [first], u.world.host.Steady := by
    intro u hu i hi
    obtain rfl := List.mem_singleton.mp hu
    rcases List.mem_pair.mp hi with rfl | rfl <;> rfl
  have hedits : Files.Edits (Turn.places [first]) (current :: Turn.history toolchain [first]) := by
    rw [history_first]
    exact edits
  have hedits' : Files.Edits (Turn.places [second, first])
      (second.moments toolchain ++ current :: Turn.history toolchain [first]) := by
    rw [history_first, moments_second]
    refine .next (edits.mono fun p hp => ?_) (fun _ _ => rfl) fun _ _ _ => .inl ⟨rfl, rfl⟩
    rcases List.mem_pair.mp hp with rfl | rfl <;> exact List.mem_cons_self
  obtain ⟨-, hnext⟩ := run.no_edit_lost
    (Command.reads ({ program := ⟨"/none"⟩ } : CompilerCommand)) hsteady hedits (by decide +kernel)
    hc hy hcontents hstale
  refine ⟨c, y, hc, hy, htext, htime, hcontents, ?_⟩
  exact hnext second ⟨"a.cs"⟩ rfl (by decide +kernel) (fun i hi => absurd hi List.not_mem_nil)
    (by decide +kernel) (by decide +kernel) (by decide +kernel) hedits'

end Saved
end IncrementalBuild
