import IncrementalBuild.Proofs.Moments
/-!
# Handles that are backed by reads

A handle is backed when it was parsed from what its file held at a moment when the file had the time
that the baseline has for it, or at a later one. Both ways of building take down times before they
read, and both commit only times that were taken down before. So every handle is always backed,
whatever others save in the meantime.

## Main definitions

* `Compilation.sourceTime?` — the time that a compilation's baseline has for a source.
* `Compilation.Backed` — every handle of a compilation is backed by a history of the files.
* `Turn.places`, `Turn.history` — the places of the sources that turns list, and what they see.

## Main results

* `InStep.find?_apply` — whose handle a path has after changes were applied.
* `Compilation.Backed.parsed_of_time` — a file with the time of the baseline holds what its handle
  was parsed from.
* `Compilation.Backed.of_create`, `Compilation.Backed.update` — both ways of building back handles.
* `Run.backed` — in every state of a run the handles are backed.
-/

namespace IncrementalBuild

variable {σ ρ φ υ η : Type}

/-! ### Collections in step -/

/-- The stamps of a snapshot are for paths that were asked for. -/
theorem Snapshot.path_mem_of_mem_capture {base : Path} {paths : List Path} {h : Host}
    {r : FileStamp} (hr : r ∈ (capture base paths h).1.stamps) : r.path ∈ paths := by
  rw [← FileStamp.captureAll_paths base paths h]
  exact List.mem_map_of_mem (mem_captureAll hr)

/-- What is left of a path without repetitions is determined by the path. -/
theorem eq_of_mem_distinct {paths : List Path} {p q : Path} (hp : p ∈ distinct paths)
    (hq : q ∈ distinct paths) (h : p.same q = true) : p = q :=
  List.inj_on_of_nodup_map (apart_distinct paths) hp hq (Path.same_iff.mp h)

/-- **Step.** After changes were applied, a path has a fresh handle, because it was touched, or its
old one, because its time is the same. -/
theorem InStep.find?_apply {add remove : η → υ → σ → υ × σ} {handles fresh : PathMap η}
    {baseline : Baseline} {paths : List Path} {s : Snapshot} {unit : υ} {e : σ} {p : Path} {y : η}
    (hstep : InStep handles baseline paths) (hs : s.Sorted)
    (hfresh : ∀ q ∈ (baseline.changesTo s).touched, ∃ y, fresh.find? q = some y)
    (hy : ((⟨handles, unit, e⟩ : Assembly η υ σ).apply add remove (baseline.changesTo s)
      fresh).handles.find? p = some y) :
    (∃ q ∈ (baseline.changesTo s).touched, p.same q = true ∧ fresh.find? q = some y) ∨
      handles.find? p = some y ∧ s.time? p = baseline.committed.bind fun old => old.time? p := by
  obtain ⟨-, old, hold, hsorted, -, hfind⟩ := hstep
  have hchanges : baseline.changesTo s = .between old s := by rw [Baseline.changesTo, hold]
  rw [hchanges] at hfresh hy ⊢
  rw [Assembly.apply, Assembly.find?_foldl_take, Assembly.find?_foldl_put _ _ hfresh] at hy
  by_cases hremoved : (Changes.between old s).removed.any p.same = true
  · rw [if_pos hremoved] at hy
    exact absurd hy (by simp)
  rw [if_neg hremoved] at hy
  by_cases htouched : (Changes.between old s).touched.any p.same = true
  · rw [if_pos htouched] at hy
    obtain ⟨q, hq, hpq⟩ := List.any_eq_true.mp htouched
    exact .inl ⟨q, hq, hpq, by rw [← PathMap.find?_congr hpq, hy]⟩
  · rw [if_neg htouched] at hy
    have hshown : (old.time? p).isSome = true := by rw [← hfind, hy]; rfl
    rw [List.any_eq_true, Changes.exists_removed_iff hsorted hs] at hremoved
    rw [List.any_eq_true, Changes.exists_touched_iff hsorted hs] at htouched
    have hsome : (s.time? p).isSome = true := by
      rw [Option.isSome_iff_ne_none]
      exact fun hnone => hremoved ⟨hnone, hshown⟩
    refine .inr ⟨hy, ?_⟩
    rw [hold, Option.bind_some]
    exact (not_not.mp fun hne => htouched ⟨hsome, hne⟩).symm

/-- After changes were applied, a touched path has its fresh handle. -/
theorem InStep.find?_apply_touched {add remove : η → υ → σ → υ × σ} {handles fresh : PathMap η}
    {baseline : Baseline} {paths : List Path} {s : Snapshot} {unit : υ} {e : σ} {q : Path}
    (hstep : InStep handles baseline paths) (hs : s.Sorted)
    (hfresh : ∀ q ∈ (baseline.changesTo s).touched, ∃ y, fresh.find? q = some y)
    (hq : q ∈ (baseline.changesTo s).touched) :
    ((⟨handles, unit, e⟩ : Assembly η υ σ).apply add remove (baseline.changesTo s)
      fresh).handles.find? q = fresh.find? q := by
  obtain ⟨-, old, hold, hsorted, -⟩ := hstep
  have hchanges : baseline.changesTo s = .between old s := by rw [Baseline.changesTo, hold]
  rw [hchanges] at hfresh hq ⊢
  have htouched : ∃ d ∈ (Changes.between old s).touched, q.same d = true :=
    ⟨q, hq, Path.same_refl q⟩
  obtain ⟨hsome, -⟩ := (Changes.exists_touched_iff hsorted hs).mp htouched
  rw [Assembly.apply, Assembly.find?_foldl_take, Assembly.find?_foldl_put _ _ hfresh, if_neg,
    if_pos (List.any_eq_true.mpr htouched)]
  rw [List.any_eq_true, Changes.exists_removed_iff hsorted hs]
  rintro ⟨hnone, -⟩
  rw [hnone] at hsome
  exact Bool.false_ne_true hsome

/-- A touched path is the path of a stamp. -/
theorem InStep.exists_stamp {handles : PathMap η} {baseline : Baseline} {paths : List Path}
    {s : Snapshot} {p : Path} (hstep : InStep handles baseline paths) (hs : s.Sorted)
    (hp : p ∈ (baseline.changesTo s).touched) : ∃ r ∈ s.stamps, r.path = p := by
  obtain ⟨-, old, hold, hsorted, -⟩ := hstep
  rw [Baseline.changesTo, hold] at hp
  exact Changes.exists_stamp_of_mem_touched hsorted hs hp

/-- Requests of one identity resolve paths alike. -/
theorem BuildOptions.resolve_of_sameIdentity {a b : BuildOptions} (h : a.sameIdentity b = true) :
    a.resolve = b.resolve := by
  have hdir : a.workDirectory = b.workDirectory := by
    simp only [BuildOptions.sameIdentity, Bool.and_eq_true, beq_iff_eq] at h
    exact h.1.1.1.1
  funext p
  rw [resolve, resolve, workDir, workDir, hdir]

/-! ### Handles that are backed by reads -/

/-- The time that a compilation's baseline has for a source. -/
def Compilation.sourceTime? (c : Compilation ρ φ υ) (p : Path) : Option Timestamp :=
  c.sources?.bind fun s => s.time? p

/-- Equal paths have one time in a baseline. -/
theorem Compilation.sourceTime?_congr (c : Compilation ρ φ υ) {p q : Path} (h : p.same q = true) :
    c.sourceTime? p = c.sourceTime? q := by
  rw [sourceTime?, sourceTime?]
  cases c.sources? with
  | none => rfl
  | some s => exact s.time?_congr h

/-- Every handle of a compilation was parsed from what a file held when it had the time of the
baseline, or later. The file is that of an equal path. -/
def Compilation.Backed (c : Compilation ρ φ υ) (parsedFrom : φ → Bytes → Prop) (o : BuildOptions)
    (places : List Path) (history : List Files) : Prop :=
  ∀ p y, c.sources.find? p = some y → ∃ q time contents, p.same q = true ∧
    o.resolve q ∈ places ∧ c.sourceTime? p = some time ∧ parsedFrom y contents ∧
    Files.ReadSince history (o.resolve q) time contents

/-- **Times of baselines.** As long as a file shows the time of the baseline, it holds what its
handle was parsed from: at `x`, and at `fs`, which came after all that backs the handle and not
after `x`. -/
theorem Compilation.Backed.parsed_of_time {c : Compilation ρ φ υ} {parsedFrom : φ → Bytes → Prop}
    {o : BuildOptions} {places paths : List Path} {history recent : List Files} {x fs : Files}
    {p q : Path} {y : φ} {contents : Bytes} (h : c.Backed parsedFrom o places history)
    (hy : c.sources.find? p = some y) (edits : Files.Edits paths (x :: recent ++ history))
    (hplaces : ∀ place ∈ places, place ∈ paths) (hpq : p.same q = true)
    (hfile : (x.contentsOf? (o.resolve q)).isSome = true)
    (htime : c.sourceTime? p = some (x.timeOf (o.resolve q))) (hfs : fs ∈ x :: recent)
    (hcontents : fs.contentsOf? (o.resolve q) = some contents) : parsedFrom y contents := by
  obtain ⟨d, time, seen, hpd, hplace, hbaseline, hfrom, hsince⟩ := h p y hy
  have hqd : (o.resolve q).same (o.resolve d) = true :=
    o.resolve_same q d (Path.same_trans (Path.same_symm hpq) hpd)
  have hshown : x.timeOf (o.resolve q) = time := Option.some.inj (htime.symm.trans hbaseline)
  obtain rfl := edits.read_eq hsince (hplaces _ hplace) hqd hfile hshown hfs hcontents
  exact hfrom

section Backing

variable {t : Toolchain σ ρ φ υ} {u : Turn σ ρ φ υ} {parsedFrom : φ → Bytes → Prop}

/-- A turn that takes down times, and parses after that, parses from what the files held when they
had these times, or later. -/
theorem Turn.exists_readSince (reads : t.engine.Reads parsedFrom)
    (steady : u.world.host.Steady) {listed touched : List Path} {entries : List (Path × φ)}
    {i m l : Nat} {order : Schedule} {w w' : World σ}
    (hw : w.host = ((u.world.host.elapse i).elapse listed.length).elapse m)
    (hparsed : parseAll t.engine u.options order touched w = (.ok entries, w'))
    (hend : (u.gathered t).host = w'.host.elapse l) {r : FileStamp} {y : φ}
    (hr : r ∈ (Snapshot.capture u.options.workDir listed (u.world.host.elapse i)).1.stamps)
    (hy : (r.path, y) ∈ entries) : ∃ contents, parsedFrom y contents ∧
      Files.ReadSince (u.moments t) (u.options.resolve r.path) r.modified contents := by
  obtain ⟨n, hn, hread⟩ := reads.parsed _ _ _ _ _ _ hparsed
  obtain ⟨k, hk, contents, hcontents, hfrom⟩ := hread _ hy
  obtain ⟨k', hk', htime⟩ :=
    FileStamp.of_mem_captureAll (steady.elapse i) (Snapshot.mem_captureAll hr)
  rw [hn, hw, ← Host.elapse_add, ← Host.elapse_add, ← Host.elapse_add, ← Host.elapse_add] at hend
  rw [hw, ← Host.elapse_add, ← Host.elapse_add, ← Host.elapse_add] at hcontents
  rw [← Host.elapse_add] at htime
  refine ⟨contents, hfrom, ?_⟩
  rw [← htime]
  exact readSince hend (by omega) (by omega) hcontents

/-- **Creation.** The handles of a new compilation are backed. -/
theorem Compilation.Backed.of_create (reads : t.engine.Reads parsedFrom)
    (steady : u.world.host.Steady) {c : Compilation ρ φ υ} {w' : World σ}
    (new : u.state.continued? u.options = none)
    (create : create t.engine u.options u.world = (.ok c, w')) {places : List Path}
    (hplaces : ∀ q ∈ u.options.sourcePaths, u.options.resolve q ∈ places) :
    c.Backed parsedFrom u.options places (u.moments t) := by
  have hgathered : u.gathered t = w' := by rw [Turn.gathered, new]; exact congrArg Prod.snd create
  obtain ⟨references, sources, resolved, parsed, w₁, w₂, rfl, rfl, hresolved, hparsed, hunit, -, hs,
    hcommitted⟩ := create_eq_ok create
  rw [Snapshot.capture_snd] at hresolved hcommitted
  obtain ⟨m, hm⟩ := (Engine.gathers_resolveAll t.engine u.options _ _ _).elapsed reads.looks
  obtain ⟨l, hl⟩ := reads.looks.buildUnit (parsed.map Prod.snd) (resolved.map Prod.snd)
    u.options.unitSettings w₂
  rw [hresolved] at hm
  rw [hunit, ← hgathered] at hl
  rw [Snapshot.capture_snd] at hm
  intro p y hy
  rw [hs] at hy
  obtain ⟨q, hentry, hpq⟩ := PathMap.exists_of_find?_ofList hy
  have hq : q ∈ distinct u.options.sourcePaths := by
    rw [← map_fst_of_gatherAll hparsed]
    exact List.mem_map_of_mem hentry
  obtain ⟨r, hr, hqr⟩ := Snapshot.time?_isSome_iff.mp
    (Snapshot.time?_capture_isSome.mpr ⟨q, hq, Path.same_refl q⟩)
  obtain rfl : q = r.path := eq_of_mem_distinct hq (Snapshot.path_mem_of_mem_capture hr) hqr
  obtain ⟨contents, hfrom, hsince⟩ := Turn.exists_readSince reads steady hm hparsed hl hr hentry
  refine ⟨r.path, r.modified, contents, hpq, ?_, ?_, hfrom, hsince⟩
  · exact hplaces _ (mem_of_mention? (mention?_of_mem_distinct hq))
  · rw [Compilation.sourceTime?, hcommitted.sources_eq, Option.bind_some]
    exact Changes.time?_of_mem hcommitted.sources_sorted hr hpq

/-- **Update.** The handles of a compilation that is brought up to date are backed, if they were
before. -/
theorem Compilation.Backed.update (reads : t.engine.Reads parsedFrom)
    (steady : u.world.host.Steady) {c c' : Compilation ρ φ υ} {plan : Plan} {w' : World σ}
    {previous : BuildOptions} {places : List Path} {history : List Files}
    (hc : c.Backed parsedFrom previous places history) (hstep : c.InStep previous)
    (same : previous.sameIdentity u.options = true) (old : u.state.continued? u.options = some c)
    (update : c.update t.engine u.options u.world = (.ok (plan, c'), w'))
    (hplaces : ∀ q ∈ u.options.sourcePaths, u.options.resolve q ∈ places) :
    c'.Backed parsedFrom u.options places (u.moments t ++ history) := by
  have hgathered : u.gathered t = w' := by rw [Turn.gathered, old]; exact congrArg Prod.snd update
  obtain ⟨fresh, w₁, w₂, hplan, hprepare, happly⟩ := update_eq_ok update
  have hfresh := (Plan.prepare_eq_ok hprepare).2
  obtain ⟨references, sources, rfl, rfl, rfl, rfl⟩ := plan_eq_ok hplan
  obtain ⟨resolved, w₃, hresolved, hprepare⟩ := Task.bind_eq_ok hprepare
  obtain ⟨parsed, w₄, hparsed, hprepare⟩ := Task.bind_eq_ok hprepare
  obtain ⟨rfl, rfl⟩ := Task.pure_eq_ok hprepare
  rw [Compilation.apply, Task.onEngine, Prod.mk.injEq] at happly
  obtain ⟨hc', hw'⟩ := happly
  obtain rfl := Except.ok.inj hc'
  obtain ⟨m, hm⟩ := (Engine.gathers_resolveAll t.engine u.options _ _ _).elapsed reads.looks
  rw [hresolved] at hm
  simp only [Snapshot.capture_snd] at hm hfresh hparsed ⊢
  have hend : (u.gathered t).host = w₄.host.elapse 0 := by
    rw [hgathered, ← hw']
    rfl
  intro p y hy
  rcases hstep.sources.find?_apply (Snapshot.sorted_capture _ _ _) hfresh hy with
    ⟨q, hq, hpq, hqy⟩ | ⟨hkept, htime⟩
  · obtain ⟨d, hentry, hqd⟩ := PathMap.exists_of_find?_ofList hqy
    have hd := List.mem_map_of_mem hentry (f := Prod.fst)
    rw [map_fst_of_gatherAll hparsed] at hd
    obtain ⟨r, hr, rfl⟩ := hstep.sources.exists_stamp (Snapshot.sorted_capture _ _ _) hd
    obtain ⟨contents, hfrom, hsince⟩ :=
      Turn.exists_readSince reads steady hm hparsed hend hr hentry
    have hpr := Path.same_trans hpq hqd
    refine ⟨r.path, r.modified, contents, hpr, ?_, ?_, hfrom, hsince.append_earlier history⟩
    · exact hplaces _ (Snapshot.path_mem_of_mem_capture hr)
    · exact Changes.time?_of_mem (Snapshot.sorted_capture _ _ _) hr hpr
  · obtain ⟨q, time, contents, hpq, hplace, hsourceTime, hfrom, hsince⟩ := hc p y hkept
    rw [BuildOptions.resolve_of_sameIdentity same] at hplace hsince
    exact ⟨q, time, contents, hpq, hplace, htime.trans hsourceTime, hfrom, hsince.append_later _⟩

end Backing

/-! ### Runs -/

/-- The places of the sources that turns list. -/
def Turn.places (turns : List (Turn σ ρ φ υ)) : List Path :=
  turns.flatMap fun u => u.options.sourcePaths.map u.options.resolve

/-- The file trees that turns see until they are past their inputs, the last one first. -/
def Turn.history (t : Toolchain σ ρ φ υ) (turns : List (Turn σ ρ φ υ)) : List Files :=
  turns.flatMap (Turn.moments t)

section Runs

variable {t : Toolchain σ ρ φ υ} {turns : List (Turn σ ρ φ υ)} {s : OutputState ρ φ υ} {engine : σ}
  {parsedFrom : φ → Bytes → Prop} {c : Compilation ρ φ υ}

/-- What backs handles backs them when there are more places, and the history is longer. -/
theorem Compilation.Backed.mono {o : BuildOptions} {places more : List Path}
    {history longer : List Files} (h : c.Backed parsedFrom o places history)
    (hplaces : ∀ p ∈ places, p ∈ more)
    (hlonger : ∀ {p time contents}, Files.ReadSince history p time contents →
      Files.ReadSince longer p time contents) : c.Backed parsedFrom o more longer := by
  intro p y hy
  obtain ⟨q, time, contents, hpq, hplace, htime, hfrom, hsince⟩ := h p y hy
  exact ⟨q, time, contents, hpq, hplaces _ hplace, htime, hfrom, hlonger hsince⟩

/-- **Backing.** In every state of a run the handles are backed. -/
theorem Run.backed (run : Run t turns s engine) (reads : t.engine.Reads parsedFrom)
    (steady : ∀ u ∈ turns, u.world.host.Steady) (hc : s.compilation = some c) :
    ∃ o, s.options = some o ∧ c.InStep o ∧
      c.Backed parsedFrom o (Turn.places turns) (Turn.history t turns) := by
  induction run generalizing c with
  | start => exact absurd hc (by simp)
  | @next turns s engine run o host ih =>
      set u : Turn σ ρ φ υ := ⟨o, s, ⟨host, engine⟩⟩ with hu
      have hsteady := steady u List.mem_cons_self
      have hbefore : ∀ {d}, s.compilation = some d → ∃ o', s.options = some o' ∧ d.InStep o' ∧
          d.Backed parsedFrom o' (Turn.places turns) (Turn.history t turns) :=
        fun hd => ih (fun v hv => steady v (List.mem_cons_of_mem u hv)) hd
      have hplaces : ∀ p ∈ Turn.places turns, p ∈ Turn.places (u :: turns) :=
        fun p hp => List.mem_append_right _ hp
      have hlisted : ∀ q ∈ o.sourcePaths, o.resolve q ∈ Turn.places (u :: turns) :=
        fun q hq => List.mem_append_left _ (List.mem_map_of_mem hq)
      have hstill : ∀ d, s.compilation = some d → ∃ o', s.options = some o' ∧ d.InStep o' ∧
          d.Backed parsedFrom o' (Turn.places (u :: turns)) (Turn.history t (u :: turns)) := by
        intro d hd
        obtain ⟨o', ho', hstep, hbacked⟩ := hbefore hd
        exact ⟨o', ho', hstep, hbacked.mono hplaces fun h => h.append_later _⟩
      have hupdated : ∀ {d d' plan w'}, s.continued? o = some d →
          d.update t.engine o ⟨host, engine⟩ = (.ok (plan, d'), w') → d'.InStep o ∧
            d'.Backed parsedFrom o (Turn.places (u :: turns)) (Turn.history t (u :: turns)) := by
        intro d d' plan w' old update
        obtain ⟨previous, hprevious, same, hd⟩ := OutputState.continued?_eq_some old
        obtain ⟨o', ho', hstep, hbacked⟩ := hbefore hd
        obtain rfl := Option.some.inj (hprevious.symm.trans ho')
        exact ⟨hstep.update update, (hbacked.mono hplaces id).update reads hsteady hstep same old
          update hlisted⟩
      have hcourse : Course t o s ⟨host, engine⟩ (s.build t o ⟨host, engine⟩) :=
        OutputState.course_build t o s ⟨host, engine⟩
      generalize s.build t o ⟨host, engine⟩ = out at hcourse hc
      cases hcourse with
      | unfounded => exact hstill c hc
      | stuck => exact hstill c hc
      | @founded d w' new create =>
          obtain ⟨kept, after, hstate, -⟩ := OutputState.emitUnit_frame t o d.unit
            { kind := .full, source := .emitted } (s.found o d) w'
          rw [hstate] at hc ⊢
          obtain rfl : d = c := Option.some.inj hc
          have hbacked := Compilation.Backed.of_create reads hsteady new create hlisted
          exact ⟨o, rfl, Compilation.inStep_of_create create,
            hbacked.mono (fun _ => id) fun h => h.append_earlier _⟩
      | @emitted d d' plan w' old update changed =>
          obtain ⟨kept, after, hstate, -⟩ := OutputState.emitUnit_frame t o d'.unit
            (plan.report .emitted) (s.advance o d') w'
          rw [hstate] at hc ⊢
          obtain rfl : d' = c := Option.some.inj hc
          exact ⟨o, rfl, hupdated old update⟩
      | @reused d d' plan w' k old update unchanged =>
          rw [(OutputState.reuse_frame _ _ _ _ _).1] at hc ⊢
          obtain rfl : d' = c := Option.some.inj hc
          exact ⟨o, rfl, hupdated old update⟩

end Runs

end IncrementalBuild
