import IncrementalBuild.Proofs.Collection
import IncrementalBuild.Proofs.Engine.Calls
import IncrementalBuild.Proofs.Engine.Transparent
import IncrementalBuild.Proofs.Path.Keys
/-!
# Sessions

A session is a compilation from its creation on, through any rounds in which it is brought up to
date or not. Handles, baselines and unit come from different code, which treats repeated paths in
different ways. They stay in step: every path of the request that was applied last has one handle
and one baseline entry, and the unit holds every handle once.

## Main definitions

* `Session` — what creating a compilation and any rounds lead to.
* `InStep` — handles, a baseline and a list of paths that are for the same paths.
* `UnitHolds` — the handles that a unit holds after calls.

## Main results

* `Session.inStep` — the collections of a session are in step.
* `Session.unitHolds` — the unit of a session holds its handles.
* `Session.represents` — both, for a watched engine.
-/

namespace IncrementalBuild

variable {σ ρ φ υ η α : Type}

/-! ### Rounds -/

/-- The sessions of an engine that start from a state of its own: the request that was applied last,
the compilation, and the engine's own state by now. Between the steps of a round anything may happen
to the host. -/
inductive Session (engine : Engine σ ρ φ υ) (start : σ) :
    BuildOptions → Compilation ρ φ υ → σ → Prop
  /-- A compilation is created. -/
  | created {o : BuildOptions} {host : Host} {c : Compilation ρ φ υ} {w : World σ}
      (create : Compilation.create engine o ⟨host, start⟩ = (.ok c, w)) :
      Session engine start o c w.engine
  /-- A round that is given up after getting handles, or because they could not be had, leaves the
  compilation. -/
  | abandoned {previous o : BuildOptions} {c : Compilation ρ φ υ} {kept : σ} {host host' : Host}
      {plan : Plan} {handles : Except Failure (Fresh ρ φ)} {w₁ w₂ : World σ}
      (session : Session engine start previous c kept)
      (pending : c.plan o ⟨host, kept⟩ = (.ok plan, w₁))
      (resolve : plan.prepare engine o ⟨host', kept⟩ = (handles, w₂)) :
      Session engine start previous c w₂.engine
  /-- A round that gets all its handles applies them. -/
  | applied {previous o : BuildOptions} {c c' : Compilation ρ φ υ} {kept : σ}
      {host host' host'' : Host} {plan : Plan} {fresh : Fresh ρ φ} {w₁ w₂ w₃ : World σ}
      (session : Session engine start previous c kept)
      (pending : c.plan o ⟨host, kept⟩ = (.ok plan, w₁))
      (resolve : plan.prepare engine o ⟨host', kept⟩ = (.ok fresh, w₂))
      (apply : c.apply engine plan fresh ⟨host'', w₂.engine⟩ = (.ok c', w₃)) :
      Session engine start o c' w₃.engine

/-- A compilation that is brought up to date went through a round. -/
theorem Session.update {engine : Engine σ ρ φ υ} {start kept : σ} {previous o : BuildOptions}
    {c c' : Compilation ρ φ υ} {host : Host} {plan : Plan} {w : World σ}
    (session : Session engine start previous c kept)
    (h : c.update engine o ⟨host, kept⟩ = (.ok (plan, c'), w)) :
    Session engine start o c' w.engine := by
  obtain ⟨fresh, w₁, w₂, hplan, hprepare, happly⟩ := Compilation.update_eq_ok h
  obtain ⟨references, sources, -, -, -, rfl⟩ := Compilation.plan_eq_ok hplan
  exact .applied session hplan hprepare happly

/-! ### Collections in step -/

/-- Handles, a baseline and a list of paths that are for the same paths. -/
structure InStep (handles : PathMap η) (baseline : Baseline) (paths : List Path) : Prop where
  apart : Path.Apart handles.keys
  committed : ∃ s, baseline.committed = some s ∧ s.Sorted ∧
    (∀ p, (s.time? p).isSome = true ↔ ∃ q ∈ paths, p.same q = true) ∧
    ∀ p, (handles.find? p).isSome = (s.time? p).isSome

/-- The stamps of paths are for these paths. -/
theorem FileStamp.captureAll_paths (base : Path) (paths : List Path) (h : Host) :
    (captureAll base paths h).1.map FileStamp.path = paths := by
  induction paths generalizing h with
  | nil => rfl
  | cons p rest ih =>
      rw [captureAll]
      dsimp only
      rw [List.map_cons, ih]

/-- The first stamp for a path is that of its first mention. -/
theorem FileStamp.map_firstFor_captureAll (base : Path) (paths : List Path) (h : Host) (p : Path) :
    (firstFor (captureAll base paths h).1 p).map path = mention? paths p := by
  rw [mention?, firstFor]
  conv_rhs => rw [← captureAll_paths base paths h, List.find?_map]
  rfl

/-- A captured snapshot shows the paths that were asked for. -/
theorem Snapshot.time?_capture_isSome {base p : Path} {paths : List Path} {h : Host} :
    ((capture base paths h).1.time? p).isSome = true ↔ ∃ q ∈ paths, p.same q = true := by
  rw [time?, Option.isSome_map, capture, stamp?_ofStamps, FileStamp.firstFor, List.find?_isSome]
  conv_rhs => rw [← FileStamp.captureAll_paths base paths h]
  simp

/-- Leaving repetitions out keeps the paths apart. -/
theorem apart_distinct (paths : List Path) : Path.Apart (distinct paths) := by
  induction paths with
  | nil => exact List.nodup_nil
  | cons p rest ih =>
      rw [distinct, Path.apart_cons]
      refine ⟨fun q hq => ?_, ih.sublist (List.filter_sublist.map Path.components)⟩
      simpa using (List.mem_filter.mp hq).2

/-- Leaving repetitions out keeps all paths, up to their spelling. -/
theorem exists_same_distinct_iff {paths : List Path} {p : Path} :
    (∃ q ∈ distinct paths, p.same q = true) ↔ ∃ q ∈ paths, p.same q = true := by
  have h : (mention? (distinct paths) p).isSome = (mention? paths p).isSome := by
    rw [mention?_distinct]
  rw [mention?, mention?, Bool.eq_iff_iff, List.find?_isSome, List.find?_isSome] at h
  exact h

/-- What was got for paths that are apart is in step with their snapshot. -/
theorem InStep.of_entries {entries : List (Path × η)} {paths : List Path} {base : Path} {h : Host}
    (hentries : entries.map Prod.fst = distinct paths) :
    InStep (.ofList entries) ⟨some (Snapshot.capture base (distinct paths) h).1⟩ paths := by
  have happart : Path.Apart (entries.map Prod.fst) := hentries ▸ apart_distinct paths
  refine ⟨happart.perm ((PathMap.perm_ofList happart).map Prod.fst).symm, _, rfl,
    Snapshot.sorted_capture _ _ _, fun p => ?_, fun p => ?_⟩
  · rw [Snapshot.time?_capture_isSome, exists_same_distinct_iff]
  · rw [Bool.eq_iff_iff, Snapshot.time?_capture_isSome, PathMap.find?_ofList_isSome, ← hentries]
    simp

namespace Assembly

variable {add remove : η → υ → σ → υ × σ} {a : Assembly η υ σ} {fresh : PathMap η} {p : Path}

/-- Taking a path out keeps the keys apart. -/
theorem apart_take (h : Path.Apart a.handles.keys) (p : Path) :
    Path.Apart (a.take remove p).handles.keys := by
  rw [take]
  split
  · exact h
  · exact PathMap.apart_erase h p

/-- A path that was taken out is no key. -/
theorem find?_take_self (remove : η → υ → σ → υ × σ) (a : Assembly η υ σ) (p : Path) :
    (a.take remove p).handles.find? p = none := by
  rw [find?_take, if_pos (Path.same_refl p)]

/-- Putting a path in keeps the keys apart. -/
theorem apart_put (h : Path.Apart a.handles.keys) (p : Path) :
    Path.Apart (a.put add remove fresh p).handles.keys := by
  rw [put]
  split
  · exact h
  · exact PathMap.apart_insert (apart_take h p) (find?_take_self remove a p) _

/-- Applying changes keeps the keys apart. -/
theorem apart_apply (h : Path.Apart a.handles.keys) (changes : Changes) (fresh : PathMap η) :
    Path.Apart (a.apply add remove changes fresh).handles.keys := by
  rw [apply]
  have hput : Path.Apart (changes.touched.foldl (put add remove fresh) a).handles.keys := by
    generalize changes.touched = touched
    induction touched generalizing a with
    | nil => exact h
    | cons p rest ih => exact ih (apart_put h p)
  generalize changes.touched.foldl (put add remove fresh) a = b at hput
  generalize changes.removed = removed
  induction removed generalizing b with
  | nil => exact hput
  | cons p rest ih => exact ih _ (apart_take hput p)

end Assembly

/-- **Step.** Applying the changes to the snapshot of other paths, with a fresh handle for every
touched one, brings the handles in step with it. -/
theorem InStep.apply {add remove : η → υ → σ → υ × σ} {handles fresh : PathMap η}
    {baseline : Baseline} {paths paths' : List Path} {base : Path} {h : Host} {u : υ} {e : σ}
    (hstep : InStep handles baseline paths)
    (hfresh : ∀ q ∈ (baseline.changesTo (Snapshot.capture base paths' h).1).touched,
      ∃ y, fresh.find? q = some y) :
    InStep ((⟨handles, u, e⟩ : Assembly η υ σ).apply add remove
        (baseline.changesTo (Snapshot.capture base paths' h).1) fresh).handles
      (baseline.commit (Snapshot.capture base paths' h).1) paths' := by
  obtain ⟨happart, s, hs, hsorted, -, hfind⟩ := hstep
  have hsorted' := Snapshot.sorted_capture base paths' h
  refine ⟨Assembly.apart_apply happart _ _, _, rfl, hsorted',
    fun p => Snapshot.time?_capture_isSome, fun p => ?_⟩
  have hchanges : baseline.changesTo (Snapshot.capture base paths' h).1 =
      .between s (Snapshot.capture base paths' h).1 := by
    rw [Baseline.changesTo, hs]
  rw [hchanges] at hfresh ⊢
  generalize (Snapshot.capture base paths' h).1 = s' at hfresh hsorted'
  rw [Assembly.apply, Assembly.find?_foldl_take, Assembly.find?_foldl_put _ _ hfresh]
  -- A path is dropped, touched, or shows the time that it showed before.
  by_cases hremoved : (Changes.between s s').removed.any p.same = true
  · obtain ⟨hnone, -⟩ := (Changes.exists_removed_iff hsorted hsorted').mp
      (List.any_eq_true.mp hremoved)
    rw [if_pos hremoved, hnone]
    rfl
  rw [if_neg hremoved]
  by_cases htouched : (Changes.between s s').touched.any p.same = true
  · obtain ⟨q, hq, hpq⟩ := List.any_eq_true.mp htouched
    obtain ⟨hsome, -⟩ := (Changes.exists_touched_iff hsorted hsorted').mp ⟨q, hq, hpq⟩
    obtain ⟨y, hy⟩ := hfresh q hq
    rw [if_pos htouched, PathMap.find?_congr hpq, hy, hsome]
    rfl
  · rw [if_neg htouched, hfind]
    rw [List.any_eq_true, Changes.exists_removed_iff hsorted hsorted'] at hremoved
    rw [List.any_eq_true, Changes.exists_touched_iff hsorted hsorted'] at htouched
    rcases hnew : s'.time? p with _ | time
    · rw [hnew] at hremoved
      simpa using hremoved
    · rw [hnew] at htouched
      rw [not_not.mp fun hne => htouched ⟨rfl, hne⟩]

/-- Handles that were got for all touched paths are there. -/
theorem exists_find?_ofList {entries : List (Path × η)} {paths : List Path}
    (hentries : entries.map Prod.fst = paths) :
    ∀ q ∈ paths, ∃ y, (PathMap.ofList entries).find? q = some y := by
  intro q hq
  rw [← Option.isSome_iff_exists, PathMap.find?_ofList_isSome]
  rw [← hentries] at hq
  obtain ⟨e, he, rfl⟩ := List.mem_map.mp hq
  exact ⟨e, he, Path.same_refl e.1⟩

/-- Preparing a plan gets a handle for every touched path. -/
theorem Plan.prepare_eq_ok {engine : Engine σ ρ φ υ} {o : BuildOptions} {plan : Plan}
    {fresh : Fresh ρ φ} {w w' : World σ} (h : plan.prepare engine o w = (.ok fresh, w')) :
    (∀ q ∈ plan.references.touched, ∃ y, fresh.references.find? q = some y) ∧
      ∀ q ∈ plan.sources.touched, ∃ y, fresh.sources.find? q = some y := by
  obtain ⟨resolved, w₁, hresolved, h⟩ := Task.bind_eq_ok h
  obtain ⟨parsed, w₂, hparsed, h⟩ := Task.bind_eq_ok h
  obtain ⟨rfl, -⟩ := Task.pure_eq_ok h
  exact ⟨exists_find?_ofList (map_fst_of_gatherAll hresolved),
    exists_find?_ofList (map_fst_of_gatherAll hparsed)⟩

/-- The two collections of a compilation in step with a request. -/
structure Compilation.InStep (c : Compilation ρ φ υ) (o : BuildOptions) : Prop where
  references : IncrementalBuild.InStep c.references c.referenceBaseline o.referencePaths
  sources : IncrementalBuild.InStep c.sources c.sourceBaseline o.sourcePaths

namespace Compilation

variable {engine : Engine σ ρ φ υ} {previous o : BuildOptions} {c c' : Compilation ρ φ υ}
  {plan : Plan} {fresh : Fresh ρ φ} {w w' w₁ w₂ w₃ w₄ : World σ}

/-- A new compilation is in step with its request. -/
theorem inStep_of_create (h : create engine o w = (.ok c, w')) : c.InStep o := by
  obtain ⟨references, sources, resolved, parsed, w₁, w₂, rfl, rfl, hresolved, hparsed, -, hr, hs,
    hcommitted⟩ := create_eq_ok h
  have hreferences : c.referenceBaseline = ⟨some _⟩ :=
    congrArg Baseline.mk hcommitted.references_eq
  have hsources : c.sourceBaseline = ⟨some _⟩ := congrArg Baseline.mk hcommitted.sources_eq
  refine ⟨?_, ?_⟩
  · rw [hr, hreferences]
    exact .of_entries (map_fst_of_gatherAll hresolved)
  · rw [hs, hsources]
    exact .of_entries (map_fst_of_gatherAll hparsed)

/-- A compilation that goes through a round is in step with the request of the round. -/
theorem InStep.next (hc : c.InStep previous) (pending : c.plan o w = (.ok plan, w'))
    (resolve : plan.prepare engine o w₁ = (.ok fresh, w₂))
    (apply : c.apply engine plan fresh w₃ = (.ok c', w₄)) : c'.InStep o := by
  obtain ⟨hrfresh, hsfresh⟩ := Plan.prepare_eq_ok resolve
  obtain ⟨references, sources, rfl, rfl, rfl, -⟩ := plan_eq_ok pending
  rw [Compilation.apply, Task.onEngine, Prod.mk.injEq] at apply
  obtain rfl := Except.ok.inj apply.1
  exact ⟨hc.references.apply hrfresh, hc.sources.apply hsfresh⟩

/-- A compilation that is brought up to date is in step with the request. -/
theorem InStep.update (hc : c.InStep previous)
    (h : c.update engine o w = (.ok (plan, c'), w')) : c'.InStep o := by
  obtain ⟨fresh, w₁, w₂, hplan, hprepare, happly⟩ := update_eq_ok h
  exact hc.next hplan hprepare happly

end Compilation

/-- **Collections in step.** The handles and baselines of a session are for the paths of the request
that was applied last. -/
theorem Session.inStep {engine : Engine σ ρ φ υ} {start kept : σ} {o : BuildOptions}
    {c : Compilation ρ φ υ} (session : Session engine start o c kept) : c.InStep o := by
  induction session with
  | created create => exact Compilation.inStep_of_create create
  | abandoned _ _ _ ih => exact ih
  | applied _ pending resolve apply ih => exact ih.next pending resolve apply

/-! ### What the unit holds -/

/-- The handles that a unit holds after calls, each as often as it was put in and not taken out. A
new unit holds what it was built from, and only what a unit holds is taken out. -/
inductive UnitHolds : List (EngineCall ρ φ) → Multiset ρ → Multiset φ → Prop
  | built (calls : List (EngineCall ρ φ)) (sources : List φ) (references : List ρ)
      (settings : UnitSettings) :
      UnitHolds (calls ++ [.buildUnit sources references settings]) references sources
  | asked {calls : List (EngineCall ρ φ)} {references : Multiset ρ} {sources : Multiset φ}
      {call : EngineCall ρ φ} (holds : UnitHolds calls references sources)
      (asks : call.asks = true) : UnitHolds (calls ++ [call]) references sources
  | referenceAdded {calls : List (EngineCall ρ φ)} {references : Multiset ρ}
      {sources : Multiset φ} (holds : UnitHolds calls references sources) (r : ρ) :
      UnitHolds (calls ++ [.addReference r]) (r ::ₘ references) sources
  | referenceRemoved {calls : List (EngineCall ρ φ)} {references : Multiset ρ}
      {sources : Multiset φ} {r : ρ} (holds : UnitHolds calls (r ::ₘ references) sources) :
      UnitHolds (calls ++ [.removeReference r]) references sources
  | sourceAdded {calls : List (EngineCall ρ φ)} {references : Multiset ρ} {sources : Multiset φ}
      (holds : UnitHolds calls references sources) (f : φ) :
      UnitHolds (calls ++ [.addSource f]) references (f ::ₘ sources)
  | sourceRemoved {calls : List (EngineCall ρ φ)} {references : Multiset ρ}
      {sources : Multiset φ} {f : φ} (holds : UnitHolds calls references (f ::ₘ sources)) :
      UnitHolds (calls ++ [.removeSource f]) references sources

/-- Asking for handles leaves what a unit holds. -/
theorem UnitHolds.append_asked {calls made : List (EngineCall ρ φ)} {references : Multiset ρ}
    {sources : Multiset φ} (h : UnitHolds calls references sources)
    (hmade : ∀ call ∈ made, call.asks = true) : UnitHolds (calls ++ made) references sources := by
  induction made generalizing calls with
  | nil =>
      rw [List.append_nil]
      exact h
  | cons call rest ih =>
      have hcall := h.asked (hmade call List.mem_cons_self)
      have hrest := ih hcall fun c hc => hmade c (List.mem_cons_of_mem call hc)
      rw [List.append_assoc] at hrest
      exact hrest

namespace Assembly

variable {add remove : η → υ → σ → υ × σ} {addCall removeCall : η → EngineCall ρ φ}
  {P : List (EngineCall ρ φ) → Multiset η → Prop} {a : Assembly η (Labelled υ) (Ledger σ ρ φ)}
  {fresh : PathMap η}

variable (remove) in
/-- Taking a path out of a watched unit takes out the handle that it had. -/
theorem take_holds (hremove : ∀ calls y ys, P calls (y ::ₘ ys) → P (calls ++ [removeCall y]) ys)
    (happart : Path.Apart a.handles.keys) (h : P a.engine.calls a.handles.values) (p : Path) :
    P (a.take (fun y => Engine.watchChange (removeCall y) (remove y)) p).engine.calls
      (a.take (fun y => Engine.watchChange (removeCall y) (remove y)) p).handles.values := by
  rw [take]
  split
  · exact h
  · next old hold =>
      rw [PathMap.values_erase happart hold] at h
      exact hremove _ _ _ h

/-- Putting a path into a watched unit puts in its fresh handle, for the one that it had. -/
theorem put_holds (hadd : ∀ calls y ys, P calls ys → P (calls ++ [addCall y]) (y ::ₘ ys))
    (hremove : ∀ calls y ys, P calls (y ::ₘ ys) → P (calls ++ [removeCall y]) ys)
    (happart : Path.Apart a.handles.keys) (h : P a.engine.calls a.handles.values) (p : Path) :
    P (a.put (fun y => Engine.watchChange (addCall y) (add y))
        (fun y => Engine.watchChange (removeCall y) (remove y)) fresh p).engine.calls
      (a.put (fun y => Engine.watchChange (addCall y) (add y))
        (fun y => Engine.watchChange (removeCall y) (remove y)) fresh p).handles.values := by
  rw [put]
  split
  · exact h
  · next handle hhandle =>
      have htake := take_holds remove hremove happart h p
      dsimp only
      rw [PathMap.values_insert (find?_take_self _ a p)]
      exact hadd _ _ _ htake

variable (add remove fresh) in
/-- **Frame.** Applying changes to a watched unit keeps it holding the handles of the map. -/
theorem apply_holds (hadd : ∀ calls y ys, P calls ys → P (calls ++ [addCall y]) (y ::ₘ ys))
    (hremove : ∀ calls y ys, P calls (y ::ₘ ys) → P (calls ++ [removeCall y]) ys)
    (changes : Changes) (happart : Path.Apart a.handles.keys)
    (h : P a.engine.calls a.handles.values) :
    P (a.apply (fun y => Engine.watchChange (addCall y) (add y))
        (fun y => Engine.watchChange (removeCall y) (remove y)) changes fresh).engine.calls
      (a.apply (fun y => Engine.watchChange (addCall y) (add y))
        (fun y => Engine.watchChange (removeCall y) (remove y)) changes fresh).handles.values := by
  rw [apply]
  set puts := put (fun y => Engine.watchChange (addCall y) (add y))
    (fun y => Engine.watchChange (removeCall y) (remove y)) fresh with hputs
  have hput : Path.Apart (changes.touched.foldl puts a).handles.keys ∧
      P (changes.touched.foldl puts a).engine.calls
        (changes.touched.foldl puts a).handles.values := by
    generalize changes.touched = touched
    induction touched generalizing a with
    | nil => exact ⟨happart, h⟩
    | cons p rest ih => exact ih (apart_put happart p) (put_holds hadd hremove happart h p)
  obtain ⟨happart', h'⟩ := hput
  generalize changes.touched.foldl puts a = b at happart' h'
  generalize changes.removed = removed
  induction removed generalizing b with
  | nil => exact h'
  | cons p rest ih => exact ih _ (apart_take happart' p) (take_holds remove hremove happart' h' p)

end Assembly

section Watched

variable {e : Engine σ ρ φ υ} {start : σ} {o : BuildOptions} {c : Compilation ρ φ (Labelled υ)}
  {ledger : Ledger σ ρ φ}

/-- The values of a map of entries that are apart are theirs. -/
theorem values_ofList {entries : List (Path × η)} {paths : List Path}
    (hentries : entries.map Prod.fst = distinct paths) :
    ((PathMap.ofList entries).values : Multiset η) = (entries.map Prod.snd : List η) := by
  have happart : Path.Apart (entries.map Prod.fst) := hentries ▸ apart_distinct paths
  exact Multiset.coe_eq_coe.mpr ((PathMap.perm_ofList happart).map Prod.snd)

/-- **Unit.** After the calls of a session its unit holds the handles of both maps, each of them as
often as it is there. -/
theorem Session.unitHolds (session : Session e.watched ⟨start, []⟩ o c ledger) :
    UnitHolds ledger.calls c.references.values c.sources.values := by
  induction session with
  | @created o host c w create =>
      obtain ⟨references, sources, resolved, parsed, w₁, w₂, rfl, rfl, hresolved, hparsed, hunit,
        hr, hs, -⟩ := Compilation.create_eq_ok create
      obtain ⟨unit, w₃, hbuilt, hunit⟩ := Task.bind_eq_ok hunit
      obtain ⟨-, rfl⟩ := Task.pure_eq_ok hunit
      have hcalls : w₃.engine.calls = w₂.engine.calls ++
          [.buildUnit (parsed.map Prod.snd) (resolved.map Prod.snd) o.unitSettings] :=
        congrArg (fun done => done.2.engine.calls) hbuilt.symm
      rw [hcalls, hr, hs, values_ofList (map_fst_of_gatherAll hresolved),
        values_ofList (map_fst_of_gatherAll hparsed)]
      exact .built _ _ _ _
  | @abandoned previous o c kept host host' plan handles w₁ w₂ session pending resolve ih =>
      obtain ⟨made, hmade, hasks⟩ := Engine.calls_prepare e o plan ⟨host', kept⟩
      rw [resolve] at hmade
      rw [hmade]
      exact ih.append_asked hasks
  | @applied previous o c c' kept host host' host'' plan fresh w₁ w₂ w₃ session pending resolve
      apply ih =>
      obtain ⟨made, hmade, hasks⟩ := Engine.calls_prepare e o plan ⟨host', kept⟩
      rw [resolve] at hmade
      have hprepared := ih.append_asked hasks
      rw [← hmade] at hprepared
      obtain ⟨hreferences, hsources⟩ := session.inStep
      rw [Compilation.apply, Task.onEngine, Prod.mk.injEq] at apply
      obtain ⟨hc', rfl⟩ := apply
      obtain rfl := Except.ok.inj hc'
      -- The references are applied while the sources stay, and then the other way round.
      have hr := Assembly.apply_holds e.addReference e.removeReference fresh.references
        (P := fun calls references => UnitHolds calls references (c.sources.values : Multiset φ))
        (a := ⟨c.references, c.unit, w₂.engine⟩) (fun _ r _ h => h.referenceAdded r)
        (fun _ _ _ h => h.referenceRemoved) plan.references hreferences.apart hprepared
      exact Assembly.apply_holds e.addSource e.removeSource fresh.sources
        (P := fun calls sources => UnitHolds calls _ sources) (a := ⟨c.sources, _, _⟩)
        (fun _ f _ h => h.sourceAdded f) (fun _ _ _ h => h.sourceRemoved) plan.sources
        hsources.apart hr

end Watched

/-! ### Every session is watched -/

/-- A watched task ends as the task that it follows. -/
theorem Task.Follows.exists_eq {α' : Type} {f : α' → α} {t' : Task (Ledger σ ρ φ) α'}
    {t : Task σ α} (h : Follows f t' t) {w : World (Ledger σ ρ φ)} {r : Except Failure α}
    {v : World σ} (ht : t w.plain = (r, v)) :
    ∃ r' w', t' w = (r', w') ∧ r'.map f = r ∧ w'.plain = v := by
  rw [h w] at ht
  obtain ⟨hr, hv⟩ := Prod.mk.inj ht
  exact ⟨_, _, rfl, hr, hv⟩

/-- A value of a task is what is left of a value of the watched one. -/
theorem Task.Follows.exists_eq_ok {α' : Type} {f : α' → α} {t' : Task (Ledger σ ρ φ) α'}
    {t : Task σ α} (h : Follows f t' t) {w : World (Ledger σ ρ φ)} {a : α} {v : World σ}
    (ht : t w.plain = (.ok a, v)) : ∃ a' w', t' w = (.ok a', w') ∧ f a' = a ∧ w'.plain = v := by
  obtain ⟨r, w', hr, hmap, hv⟩ := h.exists_eq ht
  rcases r with e | a'
  · exact absurd hmap (by simp [Except.map])
  · exact ⟨a', w', hr, Except.ok.inj hmap, hv⟩

namespace Engine

variable (e : Engine σ ρ φ υ) (o : BuildOptions)

/-- Looking for changes is followed. -/
theorem follows_plan (c : Compilation ρ φ (Labelled υ)) :
    Task.Follows id (c.plan o : Task (Ledger σ ρ φ) Plan) (c.plain.plan o) :=
  (Task.Follows.onHost _).bind fun _ => (Task.Follows.onHost _).bind fun _ => Task.Follows.pure _

end Engine

/-- **Every session can be watched.** -/
theorem Session.exists_watched {e : Engine σ ρ φ υ} {start kept : σ} {o : BuildOptions}
    {c : Compilation ρ φ υ} (session : Session e start o c kept) :
    ∃ watched ledger, Session e.watched ⟨start, []⟩ o watched ledger ∧
      Compilation.plain watched = c ∧ ledger.state = kept := by
  induction session with
  | @created o host c w create =>
      obtain ⟨watched, w', hwatched, rfl, rfl⟩ := (Engine.follows_create e o).exists_eq_ok
        (w := ⟨host, ⟨start, []⟩⟩) create
      exact ⟨watched, w'.engine, .created hwatched, rfl, rfl⟩
  | @abandoned previous o c kept host host' plan handles w₁ w₂ session pending resolve ih =>
      obtain ⟨watched, ledger, hsession, rfl, rfl⟩ := ih
      obtain ⟨_, v₁, hplan, rfl, -⟩ := (Engine.follows_plan o watched).exists_eq_ok
        (w := ⟨host, ledger⟩) pending
      obtain ⟨_, v₂, hprepare, -, rfl⟩ := (Engine.follows_prepare e o _).exists_eq
        (w := ⟨host', ledger⟩) resolve
      exact ⟨watched, v₂.engine, .abandoned hsession hplan hprepare, rfl, rfl⟩
  | @applied previous o c c' kept host host' host'' plan fresh w₁ w₂ w₃ session pending resolve
      apply ih =>
      obtain ⟨watched, ledger, hsession, rfl, rfl⟩ := ih
      obtain ⟨_, v₁, hplan, rfl, -⟩ := (Engine.follows_plan o watched).exists_eq_ok
        (w := ⟨host, ledger⟩) pending
      obtain ⟨_, v₂, hprepare, rfl, rfl⟩ := (Engine.follows_prepare e o _).exists_eq_ok
        (w := ⟨host', ledger⟩) resolve
      obtain ⟨watched', v₃, happly, rfl, rfl⟩ := (Engine.follows_apply e watched _ _).exists_eq_ok
        (w := ⟨host'', v₂.engine⟩) apply
      exact ⟨watched', v₃.engine, .applied hsession hplan hprepare happly, rfl, rfl⟩

/-! ### All in step -/

/-- The stamps of a snapshot in path order are for paths that are apart. -/
theorem Snapshot.Sorted.apart {s : Snapshot} (h : s.Sorted) : Path.Apart s.paths := by
  obtain ⟨stamps⟩ := s
  induction stamps with
  | nil => exact List.nodup_nil
  | cons r rest ih =>
      obtain ⟨hr, hrest⟩ := List.pairwise_cons.mp h
      refine Path.apart_cons.mpr ⟨fun q hq => ?_, ih hrest⟩
      obtain ⟨s, hs, rfl⟩ := List.mem_map.mp hq
      exact Path.same_eq_false_of_before (hr s hs)

/-- Handles in step have one key for every path of the snapshot, and for every path of the list. -/
theorem InStep.perm_keys {handles : PathMap η} {baseline : Baseline} {paths : List Path}
    (h : InStep handles baseline paths) :
    ∃ s, baseline.committed = some s ∧
      (handles.keys.map Path.components).Perm (s.paths.map Path.components) ∧
      (handles.keys.map Path.components).Perm (paths.map Path.components).dedup := by
  obtain ⟨happart, s, hs, hsorted, hpaths, hfind⟩ := h
  have hkeys : ∀ p : Path, (∃ q ∈ handles.keys, p.same q = true) ↔ (s.time? p).isSome = true := by
    intro p
    rw [← PathMap.find?_isSome_iff, hfind]
  refine ⟨s, hs, ?_, Path.perm_dedup happart fun p => (hkeys p).trans (hpaths p)⟩
  have hstamps := Path.perm_dedup (b := s.paths) happart fun p => by
    rw [hkeys, Snapshot.time?_isSome_iff, Snapshot.paths]
    simp
  rw [hsorted.apart.dedup] at hstamps
  exact hstamps

/-- **A session represents its last request.** Of both collections there is one handle for every
path of the committed baseline, and for every path of the request that was applied last, up to
spelling. After the calls that led there the unit holds the handles, each of them as often as it is
in the maps. -/
theorem Session.represents {e : Engine σ ρ φ υ} {start kept : σ} {o : BuildOptions}
    {c : Compilation ρ φ υ} (session : Session e start o c kept) :
    (∃ references, c.references? = some references ∧
      (c.references.keys.map Path.components).Perm (references.paths.map Path.components) ∧
      (c.references.keys.map Path.components).Perm
        (o.referencePaths.map Path.components).dedup) ∧
    (∃ sources, c.sources? = some sources ∧
      (c.sources.keys.map Path.components).Perm (sources.paths.map Path.components) ∧
      (c.sources.keys.map Path.components).Perm (o.sourcePaths.map Path.components).dedup) ∧
    (∃ watched ledger, Session e.watched ⟨start, []⟩ o watched ledger ∧ watched.plain = c ∧
      ledger.state = kept) ∧
    ∀ watched ledger, Session e.watched ⟨start, []⟩ o watched ledger → watched.plain = c →
      UnitHolds ledger.calls c.references.values c.sources.values := by
  obtain ⟨hreferences, hsources⟩ := session.inStep
  refine ⟨hreferences.perm_keys, hsources.perm_keys, session.exists_watched, ?_⟩
  rintro watched ledger hwatched rfl
  exact hwatched.unitHolds

/-! ### A session in which a source is dropped -/

namespace Dropped

open Recording

/-- A host with two sources. -/
def host : Host :=
  { files := { entries := [(["a.cs"], .file (Bytes.ofString "A") ⟨1⟩ false),
      (["b.cs"], .file (Bytes.ofString "B") ⟨2⟩ false)] } }

/-- A request with sources. -/
def request (files : List String) : BuildOptions :=
  { workDirectory := "/", output := "out", files }

/-- A compilation of one source, which is named twice. -/
def created : Except Failure (Compilation Reference Source RecordedUnit) × World State :=
  Compilation.create engine (request ["a.cs", "a.cs"]) ⟨host, {}⟩

/-- The source is dropped for the other one. -/
def updated (c : Compilation Reference Source RecordedUnit) :
    Except Failure (Plan × Compilation Reference Source RecordedUnit) × World State :=
  c.update engine (request ["b.cs"]) ⟨host, created.2.engine⟩

/-- What the round leads to. -/
def last : Option (Compilation Reference Source RecordedUnit) :=
  created.1.toOption.bind fun c => (updated c).1.toOption.map Prod.snd

/-- After the round the session has the other source, and so does its unit. -/
theorem other_source_held :
    ∃ c kept, last = some c ∧ Session engine {} (request ["b.cs"]) c kept ∧
      c.sources.keys = [⟨"b.cs"⟩] ∧
      (c.sources.keys.map Path.components).Perm
        ((request ["b.cs"]).sourcePaths.map Path.components).dedup ∧
      ∃ watched ledger, Session engine.watched ⟨{}, []⟩ (request ["b.cs"]) watched ledger ∧
        UnitHolds ledger.calls c.references.values c.sources.values := by
  have hkeys : last.map (fun c => c.sources.keys) = some [⟨"b.cs"⟩] := by decide +kernel
  obtain ⟨c, hlast, hsources⟩ := Option.map_eq_some_iff.mp hkeys
  obtain ⟨first, hfirst, hsecond⟩ := Option.bind_eq_some_iff.mp hlast
  obtain ⟨⟨plan, c'⟩, hupdated, rfl⟩ := Option.map_eq_some_iff.mp hsecond
  have hcreate : Session engine {} _ first created.2.engine :=
    .created (Prod.ext (Task.toOption_eq_some.mp hfirst) rfl)
  have hsession := hcreate.update (Prod.ext (Task.toOption_eq_some.mp hupdated) rfl)
  obtain ⟨-, ⟨_, -, -, hperm⟩, ⟨watched, ledger, hwatched, hplain, -⟩, hholds⟩ :=
    Session.represents hsession
  exact ⟨c', _, hlast, hsession, hsources, hperm, watched, ledger, hwatched,
    hholds watched ledger hwatched hplain⟩

end Dropped
end IncrementalBuild
