import IncrementalBuild.Proofs.Akin
import IncrementalBuild.Proofs.Engine.Command
import IncrementalBuild.Proofs.Engine.Staging
/-!
# Requests that list the same inputs in another order

Two requests that list the same inputs, in any order and any number of times, lead the engine that
runs a compiler to compilations that differ in the spelling of paths at most. Their units are staged
in the same files, so a compiler that is heedless of how references are spelled does the same for
both.

## Main definitions

* `BuildOptions.Reorders` — two requests that list the same inputs, and ask for the same otherwise.
* `CommandUnit.Akin`, `Compilation.Akin` — units and compilations that differ in the spelling of
  paths at most.
* `Compilation.Recalls` — the times that a compilation shows.
* `Command.Heedless` — a compiler does the same for two units.

## Main results

* `Command.create_akin`, `Command.update_akin` — both ways of building lead to akin compilations.
* `Command.emit_akin` — akin units are emitted alike.
-/

namespace IncrementalBuild

variable {σ η α : Type}

/-! ### Requests -/

/-- Two requests that list the same inputs, in any order and any number of times, and ask for the
same otherwise. -/
structure BuildOptions.Reorders (o o' : BuildOptions) : Prop where
  files : ∀ file, file ∈ o.files ↔ file ∈ o'.files
  references : ∀ reference, reference ∈ o.references ↔ reference ∈ o'.references
  others : o' = { o with files := o'.files, references := o'.references }

namespace BuildOptions.Reorders

variable {o o' : BuildOptions}

/-- They list the same sources as paths. -/
theorem sourcePaths (h : o.Reorders o') (p : Path) : p ∈ o.sourcePaths ↔ p ∈ o'.sourcePaths := by
  rw [BuildOptions.sourcePaths, BuildOptions.sourcePaths, List.mem_map, List.mem_map]
  exact exists_congr fun file => and_congr_left fun _ => h.files file

/-- They list the same references as paths. -/
theorem referencePaths (h : o.Reorders o') (p : Path) :
    p ∈ o.referencePaths ↔ p ∈ o'.referencePaths := by
  rw [BuildOptions.referencePaths, BuildOptions.referencePaths, List.mem_map, List.mem_map]
  exact exists_congr fun reference => and_congr_left fun _ => h.references reference

/-- They resolve paths alike. -/
theorem resolve (h : o.Reorders o') : o'.resolve = o.resolve := by
  rw [h.others]
  rfl

/-- They ask for the same settings. -/
theorem unitSettings (h : o.Reorders o') : o'.unitSettings = o.unitSettings := by
  rw [h.others]
  rfl

end BuildOptions.Reorders

/-- The references and the sources of a request as paths. -/
def BuildOptions.inputPaths (o : BuildOptions) : List Path := o.referencePaths ++ o.sourcePaths

/-! ### Loading -/

section Loading

variable {l : Loader η α} {task : Path → Task σ η} {r : Path → Path} {paths paths' : List Path}
  {fs : Files} {touched touched' : List Path} {entries entries' : List (Path × η)}
  {w w₁ w₂ : World σ} {order order' : Schedule}

/-- Handles that were loaded for equal paths are akin. -/
theorem Loader.Loaded.akin (h : l.Loaded r fs touched entries)
    (h' : l.Loaded r fs touched' entries')
    (hr : ∀ p q : Path, p.same q = true → (r p).same (r q) = true)
    (htouched : List.Forall₂ (fun p q => p.same q = true) touched touched') :
    (PathMap.ofList entries).Akin l.Akin (PathMap.ofList entries') := by
  intro x
  by_cases hx : ∃ p ∈ touched, x.same p = true
  · obtain ⟨p, hp, hxp⟩ := hx
    obtain ⟨q, hq, hpq⟩ := Path.exists_of_forall₂ htouched hp
    rw [PathMap.find?_congr hxp, PathMap.find?_congr hxp]
    exact (h.holds hr hp).akin (h'.holds hr hq) hr hpq
  · have hnone : ∀ p ∈ touched, x.same p = false := fun p hp =>
      Bool.eq_false_iff.mpr fun hxp => hx ⟨p, hp, hxp⟩
    rw [h.find?_eq_none hnone, h'.find?_eq_none fun q hq => ?_]
    · exact .none
    · obtain ⟨p, hp, hpq⟩ := Path.exists_of_forall₂
        (R := flip fun p q : Path => p.same q = true) htouched.flip hq
      rw [← Path.same_congr_right hpq]
      exact hnone p hp

/-- **One collection.** When two listings of one collection are compared with akin baselines, and
everything that they touch is loaded, they show the same times, and what changed is akin, and so are
the handles that were loaded. -/
theorem Loader.akin_of_loaded {b b' : Baseline} {n n' : Snapshot} (hl : Loads l task)
    (quiet : w.host.interference = []) (hb : b.Akin b') (hpaths : ∀ p, p ∈ paths ↔ p ∈ paths')
    (hr : ∀ p q : Path, p.same q = true → (r p).same (r q) = true)
    (hrests : ∀ s, b.committed = some s → s.Rests r paths w.host.files)
    (hn : n.TakenOf r paths w.host.files) (hn' : n'.TakenOf r paths' w.host.files)
    (h : loadAll order task r (b.changesTo n).touched w = (.ok entries, w₁))
    (h' : loadAll order' task r (b'.changesTo n').touched w = (.ok entries', w₂)) :
    w₁ = w ∧ w₂ = w ∧ n.Akin n' ∧ (b.changesTo n).Akin (b'.changesTo n') ∧
      (PathMap.ofList entries).Akin l.Akin (PathMap.ofList entries') := by
  obtain ⟨s, s', hs, hs', hakin⟩ := hb
  rw [Baseline.changesTo, hs] at h ⊢
  rw [Baseline.changesTo, hs'] at h' ⊢
  obtain ⟨rfl, hloaded⟩ := loadAll_eq_ok hl quiet h
  obtain ⟨rfl, hloaded'⟩ := loadAll_eq_ok hl quiet h'
  have hnew : n.Akin n' := by
    refine Snapshot.akin_of_found hakin hn hn' hpaths hr (fun q hq => ?_) (fun q hq => ?_)
      (hrests s hs)
    · exact (hloaded.holds hr hq).found
    · exact (hloaded'.holds hr hq).found
  have hchanges := Changes.akin_between hakin hnew
  exact ⟨rfl, rfl, hnew, hchanges, hloaded.akin hloaded' hr hchanges.touched⟩

/-- A time that is shown after an update is that of a path that is found, or was shown before. -/
theorem Loader.finds_or_shown {b : Baseline} {s n : Snapshot} (hl : Loads l task)
    (quiet : w.host.interference = []) (hs : b.committed = some s) (hsorted : s.Sorted)
    (hr : ∀ p q : Path, p.same q = true → (r p).same (r q) = true)
    (hn : n.TakenOf r paths w.host.files)
    (h : loadAll order task r (b.changesTo n).touched w = (.ok entries, w₁)) {x : Path}
    {time : Timestamp} (htime : n.time? x = some time) :
    w.host.files.Finds r paths x time ∨ s.time? x = some time := by
  rw [Baseline.changesTo, hs] at h
  obtain ⟨rfl, hloaded⟩ := loadAll_eq_ok hl quiet h
  rw [hn.time] at htime
  obtain ⟨p, hp, rfl⟩ := Option.map_eq_some_iff.mp htime
  rcases hn.found_or_kept hsorted (fun q hq => (hloaded.holds hr hq).found) hp with hthere | hkept
  · exact .inl ⟨p, mem_of_mention? hp, same_of_mention? hp, hthere, rfl⟩
  · exact .inr hkept

end Loading

/-! ### Units and compilations -/

/-- Two units with the same settings, sources and references, by equality of paths. -/
structure CommandUnit.Akin (u v : CommandUnit) : Prop extends u.Matches v where
  settings : u.settings = v.settings
  ordered : u.Ordered
  ordered' : v.Ordered

/-- Two compilations that differ in the spelling of paths at most. -/
structure Compilation.Akin (c d : Compilation Path ParsedSource CommandUnit) : Prop where
  references : c.references.Akin referenceLoader.Akin d.references
  sources : c.sources.Akin sourceLoader.Akin d.sources
  unit : c.unit.Akin d.unit
  referenceBaseline : c.referenceBaseline.Akin d.referenceBaseline
  sourceBaseline : c.sourceBaseline.Akin d.sourceBaseline

/-- A compilation shows a time for an input. -/
def Compilation.Recalls (c : Compilation Path ParsedSource CommandUnit) (x : Path)
    (time : Timestamp) : Prop :=
  (∃ s, c.references? = some s ∧ s.time? x = some time) ∨
    ∃ s, c.sources? = some s ∧ s.time? x = some time

/-- What is found among the references or the sources of a request is found among its inputs. -/
theorem Files.Finds.input {fs : Files} {o : BuildOptions} {paths : List Path} {x : Path}
    {time : Timestamp} (h : fs.Finds o.resolve paths x time)
    (hpaths : paths ⊆ o.inputPaths) : fs.Finds o.resolve o.inputPaths x time := by
  obtain ⟨p, hp, hfound⟩ := h
  exact ⟨p, hpaths hp, hfound⟩

namespace Command

/-- Akin references do the same to akin units. -/
theorem relates_references (command : Compiler) :
    referenceLoader.Relates CommandUnit.Akin (engine (σ := σ) command).addReference ∧
      referenceLoader.Relates CommandUnit.Akin (engine (σ := σ) command).removeReference := by
  constructor <;> rintro p q u v e d hpq huv rfl
  all_goals
    have hreferences := PathMap.akin_eq_iff.mpr huv.references
    refine ⟨⟨⟨PathMap.akin_eq_iff.mp ?_, huv.sources⟩, huv.settings, huv.ordered, huv.ordered'⟩,
      rfl⟩
  · exact hreferences.insert hpq.key rfl
  · exact hreferences.erase hpq.key

/-- Akin sources do the same to akin units. -/
theorem relates_sources (command : Compiler) :
    sourceLoader.Relates CommandUnit.Akin (engine (σ := σ) command).addSource ∧
      sourceLoader.Relates CommandUnit.Akin (engine (σ := σ) command).removeSource := by
  constructor <;> rintro y z u v e d hyz huv rfl
  all_goals
    have hsources := PathMap.akin_eq_iff.mpr huv.sources
    have hedit := ordered_edit command huv.ordered y e
    have hedit' := ordered_edit command huv.ordered' z e
  · refine ⟨⟨⟨huv.references, PathMap.akin_eq_iff.mp ?_⟩, huv.settings, hedit.1, hedit'.1⟩, rfl⟩
    exact hsources.insert hyz.key hyz.val
  · refine ⟨⟨⟨huv.references, PathMap.akin_eq_iff.mp ?_⟩, huv.settings, hedit.2, hedit'.2⟩, rfl⟩
    exact hsources.erase hyz.key

/-! ### Creating -/

variable {command : Compiler} {o o' : BuildOptions} {w w₁ w₂ : World σ} {plan plan' : Plan}
  {c c' d d' : Compilation Path ParsedSource CommandUnit}

/-- A new compilation has a unit with the settings of its request, in path order, and leaves the
world as it was. -/
theorem create_unit (quiet : w.host.interference = [])
    (h : Compilation.create (engine command) o w = (.ok c, w₁)) :
    w₁ = w ∧ c.unit.settings = o.unitSettings ∧ c.unit.Ordered := by
  obtain ⟨references, sources, resolved, parsed, w₂, w₃, rfl, rfl, hresolved, hparsed, hunit, -⟩ :=
    Compilation.create_eq_ok h
  rw [Snapshot.capture_quiet _ _ quiet, Snapshot.capture_quiet _ _ quiet] at hresolved
  obtain ⟨rfl, -⟩ := loadAll_eq_ok loads_resolveReference quiet hresolved
  obtain ⟨rfl, -⟩ := loadAll_eq_ok loads_parseSource quiet hparsed
  obtain ⟨hvalue, rfl⟩ := Prod.mk.inj hunit
  have hunit : unitOf (parsed.map Prod.snd) (resolved.map Prod.snd) o.unitSettings = c.unit :=
    Except.ok.inj hvalue
  rw [← hunit]
  exact ⟨rfl, rfl, ordered_unitOf _ _ _⟩

/-- Units that show the same files are akin. -/
theorem akin_of_shows {u v : CommandUnit} {fs : Files} (ho : o.Reorders o') (hu : u.Shows o fs)
    (hv : v.Shows o' fs) (hsettings : u.settings = v.settings) (hordered : u.Ordered)
    (hordered' : v.Ordered) : u.Akin v := by
  obtain ⟨hreferences, hsources⟩ := hv
  rw [ho.resolve] at hreferences hsources
  refine ⟨⟨hu.references.find?_eq fun x a => ?_, hu.sources.find?_eq fun x a => ?_⟩, hsettings,
    hordered, hordered'⟩
  · rw [hreferences x a]
    exact exists_congr fun q => and_congr_left fun _ => (ho.referencePaths q).symm
  · rw [hsources x a]
    exact exists_congr fun q => and_congr_left fun _ => (ho.sourcePaths q).symm

/-- **Creation.** Requests that list the same inputs create akin compilations. -/
theorem create_akin (quiet : w.host.interference = []) (ho : o.Reorders o')
    (h : Compilation.create (engine command) o w = (.ok c, w₁))
    (h' : Compilation.create (engine command) o' w = (.ok d, w₂)) :
    w₁ = w ∧ w₂ = w ∧ c.Akin d := by
  obtain ⟨hw, hsettings, hordered⟩ := create_unit quiet h
  obtain ⟨hw', hsettings', hordered'⟩ := create_unit quiet h'
  obtain ⟨⟨⟨rs, hrs, hrline⟩, ss, hss, hsline⟩, hshows⟩ := create_inLine quiet h
  obtain ⟨⟨⟨rs', hrs', hrline'⟩, ss', hss', hsline'⟩, hshows'⟩ := create_inLine quiet h'
  rw [ho.resolve] at hrline' hsline'
  obtain ⟨hreferences, hrakin⟩ := hrline.akin hrline' ho.referencePaths o.resolve_same
  obtain ⟨hsources, hsakin⟩ := hsline.akin hsline' ho.sourcePaths o.resolve_same
  refine ⟨hw, hw', hreferences, hsources, ?_, ⟨rs, rs', hrs, hrs', hrakin⟩,
    ⟨ss, ss', hss, hss', hsakin⟩⟩
  exact akin_of_shows ho hshows hshows' (by rw [hsettings, hsettings', ho.unitSettings]) hordered
    hordered'

/-- A new compilation shows the times of inputs that are found. -/
theorem create_recalls (quiet : w.host.interference = [])
    (h : Compilation.create (engine command) o w = (.ok c, w₁)) {x : Path} {time : Timestamp}
    (hx : c.Recalls x time) : w.host.files.Finds o.resolve o.inputPaths x time := by
  obtain ⟨⟨⟨rs, hrs, hrline⟩, ss, hss, hsline⟩, -⟩ := create_inLine quiet h
  rcases hx with ⟨s, hs, htime⟩ | ⟨s, hs, htime⟩
  · obtain rfl := Option.some.inj (hrs.symm.trans hs)
    exact (hrline.finds htime).input (List.subset_append_left _ _)
  · obtain rfl := Option.some.inj (hss.symm.trans hs)
    exact (hsline.finds htime).input (List.subset_append_right _ _)

/-! ### Bringing up to date -/

/-- **Update, taken apart** for this engine on a quiet host: the snapshots are those of the files,
what they touch is loaded, and the world stays as it was. -/
theorem update_eq_ok (quiet : w.host.interference = [])
    (h : c.update (engine command) o w = (.ok (plan, c'), w₁)) :
    ∃ references sources resolved parsed,
      references.TakenOf o.resolve o.referencePaths w.host.files ∧
      sources.TakenOf o.resolve o.sourcePaths w.host.files ∧
      plan = ⟨c.referenceBaseline.changesTo references, c.sourceBaseline.changesTo sources,
        references, sources⟩ ∧
      loadAll w.host.resolving resolveReference o.resolve
        (c.referenceBaseline.changesTo references).touched w = (.ok resolved, w) ∧
      loadAll w.host.parsing (fun p => parseSource p) o.resolve
        (c.sourceBaseline.changesTo sources).touched w = (.ok parsed, w) ∧
      c.apply (engine command) plan ⟨.ofList resolved, .ofList parsed⟩ w = (.ok c', w₁) ∧
      w₁ = w := by
  obtain ⟨fresh, w₃, w₄, hplan, hprepare, happly⟩ := Compilation.update_eq_ok h
  obtain ⟨references, sources, hreferences, hsources, hplan, hw⟩ := Compilation.plan_eq_ok hplan
  rw [Snapshot.capture_quiet _ _ quiet] at hreferences
  subst hreferences
  rw [Snapshot.capture_quiet _ _ quiet] at hsources
  subst hsources hplan hw
  obtain ⟨resolved, w₅, hresolved, hprepare⟩ := Task.bind_eq_ok hprepare
  obtain ⟨parsed, w₆, hparsed, hprepare⟩ := Task.bind_eq_ok hprepare
  obtain ⟨rfl, rfl⟩ := Task.pure_eq_ok hprepare
  have hw₅ : w₅ = w := (loadAll_eq_ok loads_resolveReference quiet hresolved).1
  subst hw₅
  have hw₆ : w₆ = w₅ := (loadAll_eq_ok loads_parseSource quiet hparsed).1
  subst hw₆
  refine ⟨_, _, resolved, parsed, Snapshot.takenOf_ofStamps _ _ _, Snapshot.takenOf_ofStamps _ _ _,
    rfl, hresolved, hparsed, happly, ?_⟩
  rw [Compilation.apply, Task.onEngine, Prod.mk.injEq] at happly
  obtain ⟨-, rfl⟩ := happly
  dsimp only
  rw [Assembly.engine_apply (fun _ _ _ => rfl) fun _ _ _ => rfl,
    Assembly.engine_apply (fun _ _ _ => rfl) fun _ _ _ => rfl]

/-- **Update.** Requests that list the same inputs bring akin compilations up to date alike: they
find akin changes, and leave akin compilations. -/
theorem update_akin (quiet : w.host.interference = []) (ho : o.Reorders o') (hcd : c.Akin d)
    (hreferences : ∀ s, c.references? = some s → s.Rests o.resolve o.referencePaths w.host.files)
    (hsources : ∀ s, c.sources? = some s → s.Rests o.resolve o.sourcePaths w.host.files)
    (h : c.update (engine command) o w = (.ok (plan, c'), w₁))
    (h' : d.update (engine command) o' w = (.ok (plan', d'), w₂)) :
    w₁ = w ∧ w₂ = w ∧ plan.references.Akin plan'.references ∧ plan.sources.Akin plan'.sources ∧
      c'.Akin d' := by
  obtain ⟨rs, ss, resolved, parsed, hrs, hss, rfl, hresolved, hparsed, happly, hw⟩ :=
    update_eq_ok quiet h
  obtain ⟨rs', ss', resolved', parsed', hrs', hss', rfl, hresolved', hparsed', happly', hw'⟩ :=
    update_eq_ok quiet h'
  rw [ho.resolve] at hrs' hss' hresolved' hparsed'
  obtain ⟨-, -, hrakin, hrchanges, hrfresh⟩ := Loader.akin_of_loaded loads_resolveReference quiet
    hcd.referenceBaseline ho.referencePaths o.resolve_same hreferences hrs hrs' hresolved hresolved'
  obtain ⟨-, -, hsakin, hschanges, hsfresh⟩ := Loader.akin_of_loaded loads_parseSource quiet
    hcd.sourceBaseline ho.sourcePaths o.resolve_same hsources hss hss' hparsed hparsed'
  rw [Compilation.apply, Task.onEngine, Prod.mk.injEq] at happly happly'
  obtain ⟨hc', -⟩ := happly
  obtain ⟨hd', -⟩ := happly'
  obtain rfl := Except.ok.inj hc'
  obtain rfl := Except.ok.inj hd'
  have hr := Assembly.akin_apply (relates_references (σ := σ) command).1
    (relates_references command).2 hrfresh hrchanges
    (show Assembly.Akin referenceLoader CommandUnit.Akin ⟨c.references, c.unit, w.engine⟩
      ⟨d.references, d.unit, w.engine⟩ from ⟨hcd.references, hcd.unit, rfl⟩)
  have hs := Assembly.akin_apply (relates_sources (σ := σ) command).1 (relates_sources command).2
    hsfresh hschanges (a := ⟨c.sources, _, _⟩) (b := ⟨d.sources, _, _⟩)
    ⟨hcd.sources, hr.unit, hr.engine⟩
  exact ⟨hw, hw', hrchanges, hschanges, hr.handles, hs.handles, hs.unit,
    ⟨rs, rs', rfl, rfl, hrakin⟩, ⟨ss, ss', rfl, rfl, hsakin⟩⟩

/-- A compilation that was brought up to date shows the times of inputs that are found, or what it
showed before. -/
theorem update_recalls (quiet : w.host.interference = []) (hcd : c.Akin d)
    (h : c.update (engine command) o w = (.ok (plan, c'), w₁)) {x : Path} {time : Timestamp}
    (hx : c'.Recalls x time) :
    w.host.files.Finds o.resolve o.inputPaths x time ∨ c.Recalls x time := by
  obtain ⟨rs, ss, resolved, parsed, hrs, hss, rfl, hresolved, hparsed, happly, -⟩ :=
    update_eq_ok quiet h
  obtain ⟨r, r', hr, -, hrakin⟩ := hcd.referenceBaseline
  obtain ⟨s, s', hs, -, hsakin⟩ := hcd.sourceBaseline
  rw [Compilation.apply, Task.onEngine, Prod.mk.injEq] at happly
  obtain rfl := Except.ok.inj happly.1
  rcases hx with ⟨n, hn, htime⟩ | ⟨n, hn, htime⟩
  · obtain rfl : rs = n := Option.some.inj hn
    rcases Loader.finds_or_shown loads_resolveReference quiet hr hrakin.sorted o.resolve_same hrs
      hresolved htime with hfound | hkept
    · exact .inl (hfound.input (List.subset_append_left _ _))
    · exact .inr (.inl ⟨r, hr, hkept⟩)
  · obtain rfl : ss = n := Option.some.inj hn
    rcases Loader.finds_or_shown loads_parseSource quiet hs hsakin.sorted o.resolve_same hss
      hparsed htime with hfound | hkept
    · exact .inl (hfound.input (List.subset_append_right _ _))
    · exact .inr (.inr ⟨s, hs, hkept⟩)

/-! ### Staging -/

/-- Staged files with the same contents, for equal paths. -/
structure Staged.Akin (s t : Staged) : Prop where
  file : s.file = t.file
  source : s.source.same t.source = true
  text : s.text = t.text

/-- Sources with equal paths and the same texts are staged in the same files. -/
theorem stageFrom_akin {dir : Path} {entries entries' : List (Path × String)}
    (h : List.Forall₂ (fun e d => e.1.same d.1 = true ∧ e.2 = d.2) entries entries') (n : Nat) :
    List.Forall₂ Staged.Akin (stageFrom dir n entries) (stageFrom dir n entries') := by
  induction h generalizing n with
  | nil => exact .nil
  | @cons e d rest rest' hfirst _ ih =>
      refine .cons ⟨?_, hfirst.1, hfirst.2⟩ (ih (n + 1))
      have hname : e.1.fileName? = d.1.fileName? := by
        rw [Path.fileName?, Path.fileName?, Path.fileNameOf?, Path.fileNameOf?]
        exact congrArg (fun cs => (cs.getLast?.bind Component.name?).map String.ofList)
          (Path.same_iff.mp hfirst.1)
      rw [stagedName, stagedName, hname]

/-- Akin units are staged in the same files. -/
theorem stage_akin {u v : CommandUnit} (h : u.Akin v) (dir : Path) :
    List.Forall₂ Staged.Akin (stage dir u) (stage dir v) :=
  stageFrom_akin ((PathMap.akin_eq_iff.mpr h.sources).entries h.ordered h.ordered') 0

/-- What is written to staged files does not depend on the spelling of their sources. -/
theorem writeStaged_akin {files files' : List Staged} (h : List.Forall₂ Staged.Akin files files') :
    (writeStaged files : Task σ PUnit) = writeStaged files' := by
  rw [writeStaged, writeStaged]
  congr 1
  induction h with
  | nil => rfl
  | cons hfirst _ ih => rw [Task.forAll, Task.forAll, ih, hfirst.file, hfirst.text]

/-! ### Reports -/

end Command

/-- Reports that differ in the place that they show at most. -/
def Diagnostic.Akin (d e : Diagnostic) : Prop := e = { d with location := e.location }

/-- Outputs that differ in the places that their reports show at most. -/
structure EmitOutput.Akin (a b : EmitOutput) : Prop where
  binary : a.binary = b.binary
  symbols : a.symbols = b.symbols
  succeeded : a.succeeded = b.succeeded
  diagnostics : List.Forall₂ Diagnostic.Akin a.diagnostics b.diagnostics

namespace Command

/-- A run is reported alike for staged files of equal paths. -/
theorem reportsOf_akin (files files' : List Staged) (run : Finished) :
    List.Forall₂ Diagnostic.Akin (reportsOf files run) (reportsOf files' run) := by
  have hprinted : List.Forall₂ Diagnostic.Akin (diagnostics files run.output.toLossyString)
      (diagnostics files' run.output.toLossyString) := by
    rw [diagnostics, diagnostics]
    generalize Blank.lines run.output.toLossyString.toList = lines
    induction lines with
    | nil => exact .nil
    | cons line lines ih =>
        rw [List.filterMap_cons, List.filterMap_cons, reportOfLine?, reportOfLine?]
        rcases Json.decode printedReport (Blank.trim line) with e | r
        · exact ih
        · exact .cons rfl ih
  rw [reportsOf, reportsOf, Changes.isEmpty_of_forall₂ hprinted]
  split
  · exact .cons rfl .nil
  · exact hprinted

/-! ### Emitting -/

end Command

/-- Two ends of tasks that leave one world: with related values, or for one cause. -/
inductive Task.Matched {β : Type} (R : α → β → Prop) :
    Except Failure α × World σ → Except Failure β × World σ → Prop
  | done {a : α} {b : β} {w : World σ} (h : R a b) : Matched R (.ok a, w) (.ok b, w)
  | failed {e : Failure} {w : World σ} : Matched R (.error e, w) (.error e, w)

namespace Task.Matched

variable {β γ δ : Type} {R : α → β → Prop} {S : γ → δ → Prop} {w : World σ}

/-- An end matches itself. -/
theorem refl {R : α → α → Prop} (h : ∀ a, R a a) (x : Except Failure α × World σ) :
    Matched R x x := by
  rcases x with ⟨e | a, w⟩
  · exact .failed
  · exact .done (h a)

/-- Two tasks in two parts end alike if their parts do. -/
theorem bind {t : Task σ α} {t' : Task σ β} {f : α → Task σ γ} {f' : β → Task σ δ}
    (h : Matched R (t w) (t' w))
    (hnext : ∀ a b w', t w = (.ok a, w') → R a b → Matched S (f a w') (f' b w')) :
    Matched S ((t >>= f) w) ((t' >>= f') w) := by
  rw [Task.bind_apply, Task.bind_apply]
  rcases ht : t w with ⟨e | a, w'⟩ <;> rcases ht' : t' w with ⟨e' | b, w''⟩ <;> rw [ht, ht'] at h
  · cases h
    exact .failed
  · cases h
  · cases h
  · cases h with
    | done hab => exact hnext a b w' ht hab

end Task.Matched

namespace Command

/-- A unit that was staged in a new scratch directory, which is the value. -/
def staged (u : CommandUnit) : Task σ Path := do
  let dir ← Task.access Access.makeScratch .io
  writeStaged (stage dir u)
  return dir

/-- Where a unit was staged, the compiler does the same for it and for another. -/
def Heedless (command : Compiler) (format : Option SymbolFormat) (u v : CommandUnit)
    (w : World σ) : Prop :=
  ∀ dir w', staged u w = (.ok dir, w') →
    Access.run command.runner command.program.text
        (arguments command dir u format (stage dir u)) w'.host =
      Access.run command.runner command.program.text
        (arguments command dir v format (stage dir v)) w'.host

/-- Whether a compiler is heedless can be found out by running it twice. -/
instance (command : Compiler) (format : Option SymbolFormat) (u v : CommandUnit)
    (w : World σ) : Decidable (Heedless command format u v w) :=
  match hstaged : staged u w with
  | (.error _, _) => .isTrue fun dir w' h => by rw [hstaged] at h; cases h
  | (.ok dir, w') =>
    decidable_of_iff (Access.run command.runner command.program.text
          (arguments command dir u format (stage dir u)) w'.host =
        Access.run command.runner command.program.text
          (arguments command dir v format (stage dir v)) w'.host)
      ⟨fun hrun dir' w'' h => by rw [hstaged] at h; cases h; exact hrun, fun h => h dir w' hstaged⟩

/-- Tasks that end alike in every new scratch directory end alike in one. -/
theorem inScratch_matched {R : α → α → Prop} {t t' : Path → Task σ α}
    (h : ∀ dir started, Task.access Access.makeScratch .io w = (.ok dir, started) →
      Task.Matched R (t dir started) (t' dir started)) :
    Task.Matched R (inScratch t w) (inScratch t' w) := by
  refine Task.Matched.bind (R := Eq) (.refl (fun _ => rfl) _) fun dir _ started hscratch hdir => ?_
  subst hdir
  have hends := h dir started hscratch
  dsimp only
  generalize t dir started = x at hends ⊢
  generalize t' dir started = y at hends ⊢
  cases hends with
  | done hab => exact .done hab
  | failed => exact .failed

/-- **Akin units are emitted alike** by a compiler that is heedless of their difference. -/
theorem emit_akin {u v : CommandUnit} {format : Option SymbolFormat} (huv : u.Akin v)
    (hheedless : Heedless command format u v w) :
    Task.Matched EmitOutput.Akin (emit command u format w) (emit command v format w) := by
  refine inScratch_matched fun dir started hscratch => ?_
  have hfiles := stage_akin huv dir
  refine Task.Matched.bind (R := Eq) ?_ fun _ _ w' hstaged _ => ?_
  · rw [writeStaged_akin hfiles]
    exact .refl (fun _ => rfl) _
  have hrun := hheedless dir w' (by simp only [staged, Task.bind_apply, hscratch, hstaged]; rfl)
  refine Task.Matched.bind (R := Eq) ?_ fun run run' ran _ hrun => ?_
  · rw [Task.access, Task.onHost, Task.access, Task.onHost, hrun]
    exact .refl (fun _ => rfl) _
  subst hrun
  refine Task.Matched.bind (R := Eq) (.refl (fun _ => rfl) _) fun _ _ left _ hbinary => ?_
  refine Task.Matched.bind (R := Eq) (.refl (fun _ => rfl) _) fun _ _ _ _ hsymbols => ?_
  exact .done ⟨hbinary, hsymbols, rfl, reportsOf_akin _ _ run⟩

end Command
end IncrementalBuild
