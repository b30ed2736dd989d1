import IncrementalBuild.Proofs.Session
/-!
# The calls that change a unit

When a plan is applied, the engine gets exactly the calls that its changes ask for: for every
touched path the old handle out, if there is one, and the fresh handle in, and then for every
removed path the old handle out. Only the fresh handles come from the engine; everything else is
known from the plan and the compilation.

## Main definitions

* `EngineCall.changes` — calls that change a unit.
* `Changes.calls`, `Plan.calls` — the calls that changes, and a plan, ask for.

## Main results

* `Changes.apart_between` — no two paths of the changes between two snapshots are equal.
* `Compilation.calls_apply` — applying a plan makes the calls that it asks for.
-/

namespace IncrementalBuild

variable {σ ρ φ υ η : Type}

/-! ### Paths that change -/

namespace Changes

variable {old new : Snapshot} {stamps : List FileStamp}

/-- Paths selected from stamps in path order are apart. -/
theorem apart_filter (h : Ascending stamps) (select : FileStamp → Bool) :
    Path.Apart ((stamps.filter select).map FileStamp.path) :=
  Snapshot.Sorted.apart (s := ⟨stamps.filter select⟩) (h.sublist List.filter_sublist)

/-- **Apart.** No two paths of the changes between two snapshots are equal. -/
theorem apart_between (ho : old.Sorted) (hn : new.Sorted) :
    Path.Apart ((between old new).touched ++ (between old new).removed) := by
  have hadded : Path.Apart (between old new).added := by
    rw [between, merge_eq ho hn]
    exact apart_filter hn _
  have hchanged : Path.Apart (between old new).changed := by
    rw [between, merge_eq ho hn]
    exact apart_filter hn _
  have hremoved : Path.Apart (between old new).removed := by
    rw [between, merge_eq ho hn]
    exact apart_filter ho _
  refine (hadded.append hchanged fun p hp q hq => ?_).append hremoved fun p hp q hq => ?_
  · -- An added path is not in the old snapshot, and a changed one is.
    rw [Bool.eq_false_iff]
    intro hpq
    obtain ⟨hnone, -⟩ := (exists_added_iff ho hn).mp ⟨p, hp, Path.same_refl p⟩
    obtain ⟨time, _, hold, -⟩ := (exists_changed_iff ho hn).mp ⟨q, hq, hpq⟩
    exact absurd (hnone.symm.trans hold) (by simp)
  · -- A touched path is in the new snapshot, and a removed one is not.
    rw [Bool.eq_false_iff]
    intro hpq
    obtain ⟨hsome, -⟩ := (exists_touched_iff ho hn).mp ⟨p, hp, Path.same_refl p⟩
    obtain ⟨hnone, -⟩ := (exists_removed_iff ho hn).mp ⟨q, hq, hpq⟩
    rw [hnone] at hsome
    exact Bool.false_ne_true hsome

end Changes

/-! ### Calls for changes -/

/-- A call that changes a unit. -/
def EngineCall.changes : EngineCall ρ φ → Bool
  | .addReference _ => true
  | .removeReference _ => true
  | .addSource _ => true
  | .removeSource _ => true
  | _ => false

/-- The call for the handle of a path, if a map has one. -/
def PathMap.callFor (call : η → EngineCall ρ φ) (handles : PathMap η) (p : Path) :
    List (EngineCall ρ φ) :=
  ((handles.find? p).map call).toList

/-- The calls that changes ask for: fresh handles in for old ones, and the handles of removed paths
out. -/
def Changes.calls (addCall removeCall : η → EngineCall ρ φ) (changes : Changes)
    (handles fresh : PathMap η) : List (EngineCall ρ φ) :=
  (changes.touched.flatMap fun p => handles.callFor removeCall p ++ fresh.callFor addCall p) ++
    changes.removed.flatMap (handles.callFor removeCall)

/-- The calls that a plan asks for. -/
def Plan.calls (plan : Plan) (c : Compilation ρ φ υ) (fresh : Fresh ρ φ) :
    List (EngineCall ρ φ) :=
  plan.references.calls .addReference .removeReference c.references fresh.references ++
    plan.sources.calls .addSource .removeSource c.sources fresh.sources

namespace Assembly

variable {addCall removeCall : η → EngineCall ρ φ} {fresh : PathMap η}

variable (removeCall) (remove : η → υ → σ → υ × σ)

/-- Taking a path out of a watched unit makes the call for its handle. -/
theorem calls_take (a : Assembly η (Labelled υ) (Ledger σ ρ φ)) (p : Path) :
    (a.take (fun y => Engine.watchChange (removeCall y) (remove y)) p).engine.calls =
      a.engine.calls ++ a.handles.callFor removeCall p := by
  rw [take, PathMap.callFor]
  split
  · next hnone =>
      rw [hnone]
      exact (List.append_nil _).symm
  · next old hold =>
      rw [hold]
      rfl

/-- Taking paths out of a watched unit makes the calls for the handles that they had. -/
theorem calls_foldl_take {removed : List Path} (happart : Path.Apart removed)
    (a : Assembly η (Labelled υ) (Ledger σ ρ φ)) :
    (removed.foldl (take fun y => Engine.watchChange (removeCall y) (remove y)) a).engine.calls =
      a.engine.calls ++ removed.flatMap (a.handles.callFor removeCall) := by
  induction removed generalizing a with
  | nil => exact (List.append_nil _).symm
  | cons p rest ih =>
      obtain ⟨hp, hrest⟩ := Path.apart_cons.mp happart
      have hothers : rest.flatMap ((a.take
          (fun y => Engine.watchChange (removeCall y) (remove y)) p).handles.callFor removeCall) =
          rest.flatMap (a.handles.callFor removeCall) := by
        refine List.flatMap_congr fun q hq => ?_
        rw [PathMap.callFor, find?_take, if_neg, PathMap.callFor]
        rw [Path.same_comm, hp q hq]
        exact Bool.false_ne_true
      rw [List.foldl_cons, ih hrest, hothers, calls_take, List.append_assoc, List.flatMap_cons]

variable (addCall) (add : η → υ → σ → υ × σ)

/-- Putting a path into a watched unit makes the calls for its old and its fresh handle. -/
theorem calls_put (a : Assembly η (Labelled υ) (Ledger σ ρ φ)) {p : Path} {y : η}
    (hy : fresh.find? p = some y) :
    (a.put (fun y => Engine.watchChange (addCall y) (add y))
        (fun y => Engine.watchChange (removeCall y) (remove y)) fresh p).engine.calls =
      a.engine.calls ++ (a.handles.callFor removeCall p ++ fresh.callFor addCall p) := by
  have htake := calls_take removeCall remove a p
  have hin : fresh.callFor addCall p = [addCall y] := by rw [PathMap.callFor, hy]; rfl
  rw [put, hy, hin]
  dsimp only
  rw [Engine.watchChange, htake, List.append_assoc]

/-- Putting paths into a watched unit makes the calls for their old and fresh handles. -/
theorem calls_foldl_put {touched : List Path} (happart : Path.Apart touched)
    (hfresh : ∀ q ∈ touched, ∃ y, fresh.find? q = some y)
    (a : Assembly η (Labelled υ) (Ledger σ ρ φ)) :
    (touched.foldl (put (fun y => Engine.watchChange (addCall y) (add y))
        (fun y => Engine.watchChange (removeCall y) (remove y)) fresh) a).engine.calls =
      a.engine.calls ++ touched.flatMap fun p =>
        a.handles.callFor removeCall p ++ fresh.callFor addCall p := by
  induction touched generalizing a with
  | nil => exact (List.append_nil _).symm
  | cons p rest ih =>
      obtain ⟨hp, hrest⟩ := Path.apart_cons.mp happart
      obtain ⟨y, hy⟩ := hfresh p List.mem_cons_self
      have hothers : (rest.flatMap fun q => (a.put
          (fun y => Engine.watchChange (addCall y) (add y))
          (fun y => Engine.watchChange (removeCall y) (remove y)) fresh p).handles.callFor
            removeCall q ++ fresh.callFor addCall q) =
          rest.flatMap fun q => a.handles.callFor removeCall q ++ fresh.callFor addCall q := by
        refine List.flatMap_congr fun q hq => ?_
        rw [PathMap.callFor, find?_put hy, if_neg, ← PathMap.callFor]
        rw [Path.same_comm, hp q hq]
        exact Bool.false_ne_true
      rw [List.foldl_cons, ih hrest fun q hq => hfresh q (List.mem_cons_of_mem p hq), hothers,
        calls_put addCall removeCall remove add a hy, List.append_assoc, List.flatMap_cons]

/-- **Changes.** Applying changes to a watched unit makes the calls that they ask for. -/
theorem calls_apply {changes : Changes} (happart : Path.Apart (changes.touched ++ changes.removed))
    (hfresh : ∀ q ∈ changes.touched, ∃ y, fresh.find? q = some y)
    (a : Assembly η (Labelled υ) (Ledger σ ρ φ)) :
    (a.apply (fun y => Engine.watchChange (addCall y) (add y))
        (fun y => Engine.watchChange (removeCall y) (remove y)) changes fresh).engine.calls =
      a.engine.calls ++ changes.calls addCall removeCall a.handles fresh := by
  rw [Path.Apart, List.map_append] at happart
  obtain ⟨htouched, hremoved, hdisjoint⟩ := List.nodup_append'.mp happart
  have hothers : changes.removed.flatMap ((changes.touched.foldl
      (put (fun y => Engine.watchChange (addCall y) (add y))
        (fun y => Engine.watchChange (removeCall y) (remove y)) fresh) a).handles.callFor
          removeCall) = changes.removed.flatMap (a.handles.callFor removeCall) := by
    refine List.flatMap_congr fun q hq => ?_
    rw [PathMap.callFor, find?_foldl_put _ _ hfresh, if_neg, ← PathMap.callFor]
    rw [List.any_eq_true]
    rintro ⟨p, hp, hqp⟩
    refine hdisjoint (List.mem_map_of_mem hp) ?_
    rw [← Path.same_iff.mp hqp]
    exact List.mem_map_of_mem hq
  rw [apply, calls_foldl_take removeCall remove hremoved, hothers,
    calls_foldl_put addCall removeCall remove add htouched hfresh, List.append_assoc, Changes.calls]

end Assembly

/-! ### Calls for plans -/

/-- The changes that a baseline in step finds are apart. -/
theorem InStep.apart_changes {handles : PathMap η} {baseline : Baseline} {paths : List Path}
    {s : Snapshot} (h : InStep handles baseline paths) (hs : s.Sorted) :
    Path.Apart ((baseline.changesTo s).touched ++ (baseline.changesTo s).removed) := by
  obtain ⟨-, old, hold, hsorted, -⟩ := h
  rw [Baseline.changesTo, hold]
  exact Changes.apart_between hsorted hs

/-- The changes of a plan for a compilation in step are apart. -/
theorem Compilation.InStep.apart_plan {previous o : BuildOptions} {c : Compilation ρ φ υ}
    {plan : Plan} {w w' : World σ} (hc : c.InStep previous) (h : c.plan o w = (.ok plan, w')) :
    Path.Apart (plan.references.touched ++ plan.references.removed) ∧
      Path.Apart (plan.sources.touched ++ plan.sources.removed) := by
  obtain ⟨references, sources, rfl, rfl, rfl, -⟩ := plan_eq_ok h
  exact ⟨hc.references.apart_changes (Snapshot.sorted_capture _ _ _),
    hc.sources.apart_changes (Snapshot.sorted_capture _ _ _)⟩

/-- **Delta.** Applying the plan of a compilation in step makes the calls that the plan asks for,
first for references and then for sources. -/
theorem Compilation.calls_apply {e : Engine σ ρ φ υ} {previous o : BuildOptions}
    {c : Compilation ρ φ (Labelled υ)} {plan : Plan} {fresh : Fresh ρ φ}
    {w w₁ w₂ w₃ : World (Ledger σ ρ φ)} (hc : c.InStep previous)
    (hplan : c.plan o w = (.ok plan, w₁))
    (hprepare : plan.prepare e.watched o w₂ = (.ok fresh, w₃)) (w' : World (Ledger σ ρ φ)) :
    (c.apply e.watched plan fresh w').2.engine.calls =
      w'.engine.calls ++ plan.calls c fresh := by
  obtain ⟨hrapart, hsapart⟩ := hc.apart_plan hplan
  obtain ⟨hrfresh, hsfresh⟩ := Plan.prepare_eq_ok hprepare
  rw [apply, Task.onEngine, Plan.calls, ← List.append_assoc]
  have hr := Assembly.calls_apply .addReference .removeReference e.removeReference e.addReference
    hrapart hrfresh ⟨c.references, c.unit, w'.engine⟩
  dsimp only at hr ⊢
  rw [← hr]
  exact Assembly.calls_apply .addSource .removeSource e.removeSource e.addSource hsapart hsfresh
    ⟨c.sources, _, _⟩

end IncrementalBuild
