import IncrementalBuild.Proofs.Baseline
import IncrementalBuild.Proofs.Decision
import Mathlib.Data.List.Forall2
/-!
# What an incremental build does, and nothing else

A build that continues a compilation asks its engine once for every path that was added or has
another time, puts the handles it gets into the unit, and takes those of changed and removed paths
out of it. No other path is asked for or moved, however a request spells, orders and repeats it.

Applying changes looks every handle up and skips a path that has none. It never skips one: the
committed snapshot has the paths that have handles, the changes are those to it, and every path
that is touched has a fresh handle.

## Main definitions

* `Turn.referenceStamps`, `Turn.sourceStamps` — what a turn that continues a compilation sees of
  the files that its request lists, as it lists them.
* `Changes.Performed` — the calls that perform changes one path at a time, and the handles that
  they leave.

## Main results

* `Changes.performed_apply` — applying changes that fit the handles performs them.
* `InStep.performed` — the changes from a baseline in step fit its handles.
* `Run.incremental_exact` — what an incremental build whose inputs are all gathered does.
-/

namespace IncrementalBuild

variable {σ ρ φ υ η : Type}

/-! ### One value for each element -/

section Choice

variable {α β γ : Type} {R : α → β → Prop} {l : List α}

/-- Where every element is related to something, something can be chosen for each of them. -/
theorem exists_forall₂ (h : ∀ a ∈ l, ∃ b, R a b) : ∃ bs, List.Forall₂ R l bs := by
  induction l with
  | nil => exact ⟨[], .nil⟩
  | cons a rest ih =>
      obtain ⟨b, hb⟩ := h a List.mem_cons_self
      obtain ⟨bs, hbs⟩ := ih fun x hx => h x (List.mem_cons_of_mem a hx)
      exact ⟨b :: bs, .cons hb hbs⟩

/-- What an element stands for can be read off what was chosen for it. -/
theorem flatMap_of_forall₂ {bs : List β} {f : α → List γ} {g : β → List γ}
    (h : List.Forall₂ R l bs) (hfg : ∀ a b, R a b → f a = g b) : l.flatMap f = bs.flatMap g := by
  induction h with
  | nil => rfl
  | cons hab _ ih => rw [List.flatMap_cons, List.flatMap_cons, hfg _ _ hab, ih]

end Choice

/-! ### Changes, performed -/

/-- Changes performed on handles, with fresh ones for the touched paths: the calls for it, and the
handles that it leaves. -/
structure Changes.Performed (changes : Changes) (addCall removeCall : η → EngineCall ρ φ)
    (old fresh new : PathMap η) (calls : List (EngineCall ρ φ)) : Prop where
  /-- The fresh handle of every added path goes in, in their order. Then for every changed path the
  handle that it had goes out and the fresh one in. Then those of the removed paths go out. -/
  calls : ∃ (added : List η) (changed : List (η × η)) (removed : List η),
    List.Forall₂ (fun p y => old.find? p = none ∧ fresh.find? p = some y) changes.added added ∧
    List.Forall₂ (fun p x => old.find? p = some x.1 ∧ fresh.find? p = some x.2)
      changes.changed changed ∧
    List.Forall₂ (fun p y => old.find? p = some y) changes.removed removed ∧
    calls = added.map addCall ++ changed.flatMap (fun x => [removeCall x.1, addCall x.2]) ++
      removed.map removeCall
  /-- A touched path has its fresh handle. -/
  touched : ∀ p : Path, (∃ q ∈ changes.touched, p.same q = true) → new.find? p = fresh.find? p
  /-- A removed path has none. -/
  removed : ∀ p : Path, (∃ q ∈ changes.removed, p.same q = true) → new.find? p = none
  /-- Every other path has the one that it had, or still none. -/
  kept : ∀ p : Path, (∀ q ∈ changes.touched ++ changes.removed, p.same q = false) →
    new.find? p = old.find? p

namespace Changes

variable {changes : Changes} {handles fresh : PathMap η}

/-- The calls that changes ask for are one for each handle, when they fit the handles. -/
theorem exists_calls (addCall removeCall : η → EngineCall ρ φ)
    (hadded : ∀ p ∈ changes.added, handles.find? p = none)
    (hchanged : ∀ p ∈ changes.changed, ∃ y, handles.find? p = some y)
    (hremoved : ∀ p ∈ changes.removed, ∃ y, handles.find? p = some y)
    (hfresh : ∀ p ∈ changes.touched, ∃ y, fresh.find? p = some y) :
    ∃ (added : List η) (changed : List (η × η)) (removed : List η),
      List.Forall₂ (fun p y => handles.find? p = none ∧ fresh.find? p = some y)
        changes.added added ∧
      List.Forall₂ (fun p x => handles.find? p = some x.1 ∧ fresh.find? p = some x.2)
        changes.changed changed ∧
      List.Forall₂ (fun p y => handles.find? p = some y) changes.removed removed ∧
      changes.calls addCall removeCall handles fresh =
        added.map addCall ++ changed.flatMap (fun x => [removeCall x.1, addCall x.2]) ++
          removed.map removeCall := by
  obtain ⟨added, hin⟩ : ∃ added, List.Forall₂
      (fun p y => handles.find? p = none ∧ fresh.find? p = some y) changes.added added := by
    refine exists_forall₂ fun p hp => ?_
    obtain ⟨y, hy⟩ := hfresh p (List.mem_append_left _ hp)
    exact ⟨y, hadded p hp, hy⟩
  obtain ⟨changed, hover⟩ : ∃ changed : List (η × η), List.Forall₂
      (fun p x => handles.find? p = some x.1 ∧ fresh.find? p = some x.2)
      changes.changed changed := by
    refine exists_forall₂ fun p hp => ?_
    obtain ⟨y, hy⟩ := hchanged p hp
    obtain ⟨z, hz⟩ := hfresh p (List.mem_append_right _ hp)
    exact ⟨(y, z), hy, hz⟩
  obtain ⟨removed, hout⟩ := exists_forall₂ hremoved
  refine ⟨added, changed, removed, hin, hover, hout, ?_⟩
  have hadds : (changes.added.flatMap fun p =>
      handles.callFor removeCall p ++ fresh.callFor addCall p) = added.map addCall := by
    rw [List.map_eq_flatMap]
    refine flatMap_of_forall₂ hin fun p y h => ?_
    rw [PathMap.callFor, PathMap.callFor, h.1, h.2]
    rfl
  have hswaps : (changes.changed.flatMap fun p =>
      handles.callFor removeCall p ++ fresh.callFor addCall p) =
        changed.flatMap fun x => [removeCall x.1, addCall x.2] := by
    refine flatMap_of_forall₂ hover fun p x h => ?_
    rw [PathMap.callFor, PathMap.callFor, h.1, h.2]
    rfl
  have hremoves : changes.removed.flatMap (handles.callFor removeCall) =
      removed.map removeCall := by
    rw [List.map_eq_flatMap]
    refine flatMap_of_forall₂ hout fun p y h => ?_
    rw [PathMap.callFor, h]
    rfl
  rw [Changes.calls, touched, List.flatMap_append, hadds, hswaps, hremoves]

/-- **Performed.** Applying changes that fit the handles performs them with the calls that they
ask for. -/
theorem performed_apply {add remove : η → υ → σ → υ × σ} {unit : υ} {engine : σ}
    (addCall removeCall : η → EngineCall ρ φ)
    (happart : Path.Apart (changes.touched ++ changes.removed))
    (hadded : ∀ p ∈ changes.added, handles.find? p = none)
    (hchanged : ∀ p ∈ changes.changed, ∃ y, handles.find? p = some y)
    (hremoved : ∀ p ∈ changes.removed, ∃ y, handles.find? p = some y)
    (hfresh : ∀ p ∈ changes.touched, ∃ y, fresh.find? p = some y) :
    changes.Performed addCall removeCall handles fresh
      ((⟨handles, unit, engine⟩ : Assembly η υ σ).apply add remove changes fresh).handles
      (changes.calls addCall removeCall handles fresh) := by
  have hfind : ∀ p, ((⟨handles, unit, engine⟩ : Assembly η υ σ).apply add remove changes
      fresh).handles.find? p = if changes.removed.any p.same then none else
        if changes.touched.any p.same then fresh.find? p else handles.find? p := by
    intro p
    rw [Assembly.apply, Assembly.find?_foldl_take, Assembly.find?_foldl_put _ _ hfresh]
  refine ⟨exists_calls addCall removeCall hadded hchanged hremoved hfresh, fun p hp => ?_,
    fun p hp => ?_, fun p hp => ?_⟩
  · have htouched : changes.touched.any p.same = true := List.any_eq_true.mpr hp
    have hstays : ¬ changes.removed.any p.same = true := by
      rw [List.any_eq_true]
      rintro ⟨r, hr, hpr⟩
      obtain ⟨q, hq, hpq⟩ := hp
      rw [Path.Apart, List.map_append] at happart
      refine (List.nodup_append'.mp happart).2.2 (List.mem_map_of_mem hq) ?_
      rw [← Path.same_iff.mp hpq, Path.same_iff.mp hpr]
      exact List.mem_map_of_mem hr
    rw [hfind, if_neg hstays, if_pos htouched]
  · have hgone : changes.removed.any p.same = true := List.any_eq_true.mpr hp
    rw [hfind, if_pos hgone]
  · have hnot : ∀ paths : List Path, paths ⊆ changes.touched ++ changes.removed →
        ¬ paths.any p.same = true := by
      intro paths hpaths hany
      obtain ⟨q, hq, hpq⟩ := List.any_eq_true.mp hany
      rw [hp q (hpaths hq)] at hpq
      exact Bool.false_ne_true hpq
    rw [hfind, if_neg (hnot _ (List.subset_append_right _ _)),
      if_neg (hnot _ (List.subset_append_left _ _))]

end Changes

/-- The changes from a baseline in step fit its handles: applying them performs them. -/
theorem InStep.performed {add remove : η → υ → σ → υ × σ} {handles fresh : PathMap η}
    {baseline : Baseline} {paths : List Path} {new : Snapshot} {unit : υ} {engine : σ}
    (addCall removeCall : η → EngineCall ρ φ) (h : InStep handles baseline paths)
    (hnew : new.Sorted)
    (hfresh : ∀ p ∈ (baseline.changesTo new).touched, ∃ y, fresh.find? p = some y) :
    (baseline.changesTo new).Performed addCall removeCall handles fresh
      ((⟨handles, unit, engine⟩ : Assembly η υ σ).apply add remove (baseline.changesTo new)
        fresh).handles
      ((baseline.changesTo new).calls addCall removeCall handles fresh) := by
  have happart := h.apart_changes hnew
  obtain ⟨-, old, hcommitted, hold, -, hhandles⟩ := h
  have hchanges : baseline.changesTo new = .between old new := by
    rw [Baseline.changesTo, hcommitted]
  rw [hchanges] at happart hfresh ⊢
  refine Changes.performed_apply addCall removeCall happart (fun p hp => ?_) (fun p hp => ?_)
    (fun p hp => ?_) hfresh
  · obtain ⟨hnone, -⟩ := (Changes.exists_added_iff hold hnew).mp ⟨p, hp, Path.same_refl p⟩
    rw [← Option.isNone_iff_eq_none, ← Option.not_isSome, hhandles, hnone]
    rfl
  · obtain ⟨time, _, htime, -⟩ :=
      (Changes.exists_changed_iff hold hnew).mp ⟨p, hp, Path.same_refl p⟩
    rw [← Option.isSome_iff_exists, hhandles, htime]
    rfl
  · obtain ⟨-, hsome⟩ := (Changes.exists_removed_iff hold hnew).mp ⟨p, hp, Path.same_refl p⟩
    rw [← Option.isSome_iff_exists, hhandles, hsome]

/-! ### Incremental builds -/

namespace Turn

/-- The stamps of the references as a turn that continues a compilation finds them, in the order of
the request. -/
def referenceStamps (u : Turn σ ρ φ υ) : List FileStamp :=
  (FileStamp.captureAll u.options.workDir u.options.referencePaths u.world.host).1

/-- The stamps of the sources, after the references. -/
def sourceStamps (u : Turn σ ρ φ υ) : List FileStamp :=
  (FileStamp.captureAll u.options.workDir u.options.sourcePaths
    (FileStamp.captureAll u.options.workDir u.options.referencePaths u.world.host).2).1

end Turn

/-- The changes from a snapshot in path order to that of stamps are the difference to them. -/
theorem Changes.exact_of_sorted {old : Snapshot} (h : old.Sorted) (news : List FileStamp) :
    (between old (.ofStamps news)).Exact old.stamps news := by
  have hexact := exact_between old.stamps news
  rw [Snapshot.ofStamps_stamps h] at hexact
  exact hexact

variable {t : Toolchain σ ρ φ υ} {turns : List (Turn σ ρ φ υ)} {s : OutputState ρ φ υ}
  {engine : σ} {u : Turn σ ρ φ υ} {c : Compilation ρ φ υ} {plan : Plan} {fresh : Fresh ρ φ}
  {w : World σ}

/-- **Exactly the delta.** Whatever was built before, a build that continues a compilation, and
whose inputs are all gathered, does this. It finds the difference between the committed snapshots
and the files that are listed now. It asks its engine once for every added or changed reference,
then for every such source. It performs the changes of the references, then those of the sources,
and at most emits after that. -/
theorem Run.incremental_exact (run : Run t turns s engine) (hs : u.state = s)
    (hold : u.state.continued? u.options = some c) (hplan : u.plan? = some plan)
    (hprepare : plan.prepare t.engine u.options u.looked = (.ok fresh, w)) :
    ∃ references sources c' referenceCalls sourceCalls,
      c.Committed references sources ∧
      plan.references.Exact references.stamps u.referenceStamps ∧
      plan.sources.Exact sources.stamps u.sourceStamps ∧
      (u.outcome t).state.compilation = some c' ∧
      plan.references.Performed .addReference .removeReference c.references fresh.references
        c'.references referenceCalls ∧
      plan.sources.Performed .addSource .removeSource c.sources fresh.sources
        c'.sources sourceCalls ∧
      u.CallsExactly t (plan.asks u.world.host u.options ++ (referenceCalls ++ sourceCalls)) := by
  obtain ⟨previous, -, -, hc⟩ := OutputState.continued?_eq_some hold
  obtain ⟨o, hstep⟩ := run.inStep (hs ▸ hc)
  obtain ⟨_, references, hreferences, hreferences', -⟩ := hstep.references
  obtain ⟨_, sources, hsources, hsources', -⟩ := hstep.sources
  -- The turn goes through the three steps of an update.
  obtain ⟨_, hplan', hlooked⟩ := Turn.exists_plan hold
  obtain rfl := Option.some.inj (hplan.symm.trans hplan')
  obtain ⟨c', w', happly⟩ : ∃ c' w', c.apply t.engine plan fresh w = (.ok c', w') := ⟨_, _, rfl⟩
  have hupdate := Compilation.update_of_steps hlooked hprepare happly
  obtain ⟨hcompilation, -⟩ :=
    Turn.state_of_updated (Turn.updated?_eq_some_iff.mpr ⟨c, plan, w', hold, hupdate⟩)
  have hcalls := Turn.callsExactly_of_prepared hold hstep hplan hprepare
  obtain ⟨hrfresh, hsfresh⟩ := Plan.prepare_eq_ok hprepare
  rw [Turn.plan?, hold] at hplan
  obtain rfl := Option.some.inj hplan
  rw [Compilation.apply, Task.onEngine, Prod.mk.injEq] at happly
  obtain rfl := Except.ok.inj happly.1
  refine ⟨references, sources, _, _, _, ⟨hreferences, hsources, hreferences', hsources'⟩, ?_, ?_,
    hcompilation,
    hstep.references.performed .addReference .removeReference (Snapshot.sorted_capture _ _ _)
      hrfresh,
    hstep.sources.performed .addSource .removeSource (Snapshot.sorted_capture _ _ _) hsfresh,
    hcalls⟩
  · dsimp only
    rw [Baseline.changesTo, hreferences]
    exact Changes.exact_of_sorted hreferences' u.referenceStamps
  · dsimp only
    rw [Baseline.changesTo, hsources]
    exact Changes.exact_of_sorted hsources' u.sourceStamps

/-! ### Edits between two builds -/

namespace Edited

open Recording

/-- A host with a library and sources, saved at these times, in one directory. -/
def host (saved : List (String × Nat)) : Host :=
  { files := { entries := (["src"], .directory) :: saved.map fun (name, time) =>
      (["src", name], .file (Bytes.ofString name) ⟨time⟩ false) } }

/-- A request for references and sources. -/
def request (references files : List String) : BuildOptions :=
  { workDirectory := "/", output := "out", references, files }

/-- The first build lists three sources. -/
def first : Turn State Reference Source RecordedUnit :=
  ⟨request ["src/r.dll"] ["src/a.cs", "src/b.cs", "src/c.cs"], {},
    ⟨host [("r.dll", 1), ("a.cs", 1), ("b.cs", 1), ("c.cs", 1)], {}⟩⟩

/-- The second one drops a source for a new one after another was saved, and lists what did not
change twice, with other spellings. -/
def second : Turn State Reference Source RecordedUnit :=
  first.follow toolchain
    (request ["src//r.dll", "src/r.dll"] ["src/./a.cs", "src/a.cs", "src/b.cs", "src/d.cs"])
    (host [("r.dll", 1), ("a.cs", 1), ("b.cs", 2), ("c.cs", 1), ("d.cs", 2)])

/-- What the second build finds of the sources: one of each kind. -/
def delta : Changes :=
  { added := [⟨"src/d.cs"⟩], changed := [⟨"src/b.cs"⟩], removed := [⟨"src/c.cs"⟩] }

/-- The first build commits what it found. -/
theorem renewed_first : first.renewed =
    (⟨some ⟨[⟨⟨"src/r.dll"⟩, ⟨1⟩⟩]⟩⟩,
      ⟨some ⟨[⟨⟨"src/a.cs"⟩, ⟨1⟩⟩, ⟨⟨"src/b.cs"⟩, ⟨1⟩⟩, ⟨⟨"src/c.cs"⟩, ⟨1⟩⟩]⟩⟩) := by
  rw [Turn.renewed, Turn.plan?_eq_none rfl]
  dsimp only [Snapshot.capture]
  rw [Snapshot.ofStamps_of_notAfter (by decide +kernel),
    Snapshot.ofStamps_of_notAfter (by decide +kernel)]
  decide +kernel

/-- The second build finds these sources, and no reference. -/
theorem plan_second :
    second.plan?.map (fun plan => (plan.references, plan.sources)) = some ({}, delta) := by
  have hfounded : first.Founded toolchain := by
    rw [Turn.Founded]
    decide +kernel
  obtain ⟨hnot, -⟩ | ⟨-, hsettled⟩ := first.settled toolchain
  · exact absurd (.inl hfounded) hnot
  have hsame : second.state.continued? second.options = second.state.compilation := by
    rw [OutputState.continued?, show second.state.options = some first.options from
      hsettled.options]
    rfl
  have hreferences : second.references = ⟨[⟨⟨"src//r.dll"⟩, ⟨1⟩⟩]⟩ := by
    refine (Snapshot.ofStamps_of_notAfter (by decide +kernel)).trans ?_
    decide +kernel
  have hsources : second.sources =
      ⟨[⟨⟨"src/./a.cs"⟩, ⟨1⟩⟩, ⟨⟨"src/b.cs"⟩, ⟨2⟩⟩, ⟨⟨"src/d.cs"⟩, ⟨2⟩⟩]⟩ := by
    refine (Snapshot.ofStamps_of_notAfter (by decide +kernel)).trans ?_
    decide +kernel
  have hbaselines : second.state.baselines? = some first.renewed := hsettled.baselines
  rw [renewed_first, OutputState.baselines?] at hbaselines
  obtain ⟨c, hc, hbaselines⟩ := Option.map_eq_some_iff.mp hbaselines
  obtain ⟨hr, hs⟩ := Prod.mk.inj hbaselines
  rw [Turn.plan?, hsame, hc, Option.map_some, Option.map_some, hr, hs, hreferences, hsources]
  decide +kernel

/-- The second build finds one source of each kind and moves no other. -/
theorem delta_performed :
    ∃ c plan fresh w references sources c' referenceCalls sourceCalls,
      second.state.continued? second.options = some c ∧ second.plan? = some plan ∧
      plan.prepare toolchain.engine second.options second.looked = (.ok fresh, w) ∧
      plan.references = {} ∧ plan.sources = delta ∧
      c.Committed references sources ∧
      plan.references.Exact references.stamps second.referenceStamps ∧
      plan.sources.Exact sources.stamps second.sourceStamps ∧
      (second.outcome toolchain).state.compilation = some c' ∧
      plan.references.Performed .addReference .removeReference c.references fresh.references
        c'.references referenceCalls ∧
      plan.sources.Performed .addSource .removeSource c.sources fresh.sources
        c'.sources sourceCalls ∧
      second.CallsExactly toolchain
        (plan.asks second.world.host second.options ++ (referenceCalls ++ sourceCalls)) ∧
      c'.sources.find? ⟨"src/a.cs"⟩ = c.sources.find? ⟨"src/a.cs"⟩ := by
  have hold : (second.state.continued? second.options).isSome = true := by decide +kernel
  obtain ⟨c, hold⟩ := Option.isSome_iff_exists.mp hold
  obtain ⟨plan, hplan, hchanges⟩ := Option.map_eq_some_iff.mp plan_second
  obtain ⟨hreferences, hsources⟩ := Prod.mk.inj hchanges
  obtain ⟨fresh, w, hprepare⟩ : ∃ fresh w,
      plan.prepare toolchain.engine second.options second.looked = (.ok fresh, w) := by
    have hgathered : (Plan.prepare ⟨{}, delta, {}, {}⟩ toolchain.engine second.options
        second.looked).1.toOption.isSome = true := by decide +kernel
    have hprepare : plan.prepare toolchain.engine second.options second.looked =
        Plan.prepare ⟨{}, delta, {}, {}⟩ toolchain.engine second.options second.looked := by
      simp only [Plan.prepare, Plan.prepareBy, hreferences, hsources]
    obtain ⟨fresh, hfresh⟩ := Option.isSome_iff_exists.mp hgathered
    exact ⟨fresh, _, hprepare.trans (Prod.ext (Task.toOption_eq_some.mp hfresh) rfl)⟩
  have run : Run toolchain [first] second.state second.world.engine := Run.first toolchain rfl
  obtain ⟨references, sources, c', referenceCalls, sourceCalls, hcommitted, hr, hs, hc', hrdone,
    hsdone, hcalls⟩ := run.incremental_exact rfl hold hplan hprepare
  refine ⟨c, plan, fresh, w, references, sources, c', referenceCalls, sourceCalls, hold, hplan,
    hprepare, hreferences, hsources, hcommitted, hr, hs, hc', hrdone, hsdone, hcalls, ?_⟩
  refine hsdone.kept _ ?_
  rw [hsources]
  decide

end Edited
end IncrementalBuild
