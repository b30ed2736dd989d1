import IncrementalBuild.Engine.Command
import IncrementalBuild.Proofs.Collection
import IncrementalBuild.Proofs.Compilation
import IncrementalBuild.Proofs.Host
/-!
# Compilations of the engine that runs a compiler

On a quiet host this engine's handles are what the file tree shows. A new compilation is in line
with the files; one that is brought up to date is, with the unit only as long as no dropped path
clashes with one that is still listed.

## Main definitions

* `sourceLoader`, `referenceLoader` — the two kinds of handles.
* `Loads` — a task that gets handles of a kind.
* `Compilation.InLine`, `CommandUnit.Shows` — a compilation, and a unit, in line with the files.
* `BuildOptions.Clashes` — the next request drops a path that shares its place.

## Main results

* `Command.create_inLine`, `Command.exists_create` — creating a compilation.
* `Command.update_inLine` — bringing one up to date.
-/

namespace IncrementalBuild

variable {σ η α : Type}

/-! ### Loading -/

/-- The kind of source handles. -/
def sourceLoader : Loader ParsedSource String where
  read contents := contents.toString?
  key := ParsedSource.path
  val := ParsedSource.text

/-- The kind of reference handles. -/
def referenceLoader : Loader Path PUnit where
  read _ := some ⟨⟩
  key p := p
  val _ := ⟨⟩

/-- On a quiet host a task gets a handle for a place when there is something to load, and changes
nothing. -/
structure Loads (l : Loader η α) (task : Path → Task σ η) : Prop where
  keeps : ∀ p w, w.host.interference = [] → (task p w).2 = w
  sound : ∀ p w y, w.host.interference = [] → (task p w).1 = .ok y →
    l.key y = p ∧ l.value? w.host.files p = some (l.val y)
  complete : ∀ p w v, w.host.interference = [] → l.value? w.host.files p = some v →
    ∃ y, (task p w).1 = .ok y

namespace Command

/-- Finding a reference on a quiet host looks at what stands at its path. -/
theorem resolveReference_quiet (p : Path) {w : World σ} (quiet : w.host.interference = []) :
    resolveReference p w = match w.host.files.stat p with
      | .ok (.file _ _ _) => (.ok p, w)
      | .ok _ => (.error (.error (.unresolvedReference p "not a file")), w)
      | .error e => (.error (.error (.unresolvedReference p e.message)), w) := by
  rw [resolveReference, Access.stat, Access.look_quiet _ quiet]
  rcases w.host.files.stat p with e | (_ | _ | _) <;> rfl

/-- References are loaded. -/
theorem loads_resolveReference : Loads referenceLoader (resolveReference (σ := σ)) := by
  refine ⟨fun p w quiet => ?_, fun p w y quiet h => ?_, fun p w v quiet h => ?_⟩
  · rw [resolveReference_quiet p quiet]
    split <;> rfl
  · rw [resolveReference_quiet p quiet] at h
    split at h
    · next bytes time executable hstat =>
        obtain rfl := Except.ok.inj h
        refine ⟨rfl, ?_⟩
        simp only [Loader.value?, Files.contentsOf?, Files.read, hstat]
        rfl
    · exact absurd h (by simp)
    · exact absurd h (by simp)
  · rw [resolveReference_quiet p quiet]
    obtain ⟨contents, hcontents, -⟩ := Option.bind_eq_some_iff.mp h
    rw [Files.contentsOf?, Files.read] at hcontents
    rcases hstat : w.host.files.stat p with e | e
    · rw [hstat] at hcontents
      exact absurd hcontents (by simp [Except.toOption])
    · rw [hstat] at hcontents
      cases e with
      | directory => exact absurd hcontents (by simp [Except.toOption])
      | socket server => exact absurd hcontents (by simp [Except.toOption])
      | file bytes time executable => exact ⟨p, rfl⟩

/-- Reading a source on a quiet host reads its text. -/
theorem parseSource_quiet (p : Path) {w : World σ} (quiet : w.host.interference = []) :
    parseSource p w = match w.host.files.readText p with
      | .ok text => (.ok ⟨p, text⟩, w)
      | .error e => (.error (.error (.parse p e.message)), w) := by
  rw [parseSource, Task.bind_apply, Task.access, Task.onHost, Access.readText,
    Access.look_quiet _ quiet]
  rcases w.host.files.readText p with e | text <;> rfl

/-- The text of a source is what there is to load. -/
theorem readText_eq_ok_iff {fs : Files} {p : Path} {text : String} :
    fs.readText p = .ok text ↔ sourceLoader.value? fs p = some text := by
  rw [Files.readText, Loader.value?, Files.contentsOf?]
  rcases fs.read p with e | contents
  · simp [Except.toOption]
  · change _ ↔ contents.toString? = some text
    dsimp only
    rcases contents.toString? with _ | t <;> simp

/-- Sources are loaded. -/
theorem loads_parseSource : Loads sourceLoader (parseSource (σ := σ)) := by
  refine ⟨fun p w quiet => ?_, fun p w y quiet h => ?_, fun p w v quiet h => ?_⟩
  · rw [parseSource_quiet p quiet]
    split <;> rfl
  · rw [parseSource_quiet p quiet] at h
    split at h
    · next text htext =>
        obtain rfl := Except.ok.inj h
        exact ⟨rfl, readText_eq_ok_iff.mp htext⟩
    · exact absurd h (by simp)
  · rw [parseSource_quiet p quiet, readText_eq_ok_iff.mpr h]
    exact ⟨⟨p, v⟩, rfl⟩

end Command

section LoadAll

variable {l : Loader η α} {task : Path → Task σ η} {r : Path → Path} {paths : List Path}
  {w w' : World σ} {entries : List (Path × η)}

/-- The entries hold, for every path and no other, what there is to load at its place. -/
structure Loader.Loaded (l : Loader η α) (r : Path → Path) (fs : Files) (paths : List Path)
    (entries : List (Path × η)) : Prop where
  all : ∀ p ∈ paths, ∃ e ∈ entries, e.1 = p
  only : ∀ e ∈ entries, e.1 ∈ paths ∧ l.key e.2 = r e.1 ∧ l.value? fs (r e.1) = some (l.val e.2)

/-- Loading a handle for every path, with the path. -/
def loadAll (s : Schedule) (task : Path → Task σ η) (r : Path → Path) (paths : List Path) :
    Task σ (List (Path × η)) :=
  gatherAll s (fun p => task (r p)) paths

/-- Loading handles on a quiet host, one after the other, gets what there is to load, and changes
nothing. -/
theorem loaded_of_forAll (hl : Loads l task) (quiet : w.host.interference = [])
    (h : Task.forAll (fun p => do return (p, ← task (r p))) paths w = (.ok entries, w')) :
    w' = w ∧ l.Loaded r w.host.files paths entries := by
  have hI : ∀ p v, v = w → ((do return (p, ← task (r p)) : Task σ (Path × η)) v).2 = w := by
    rintro p v rfl
    rw [Task.bind_apply]
    have hkeeps := hl.keeps (r p) v quiet
    split
    · next a v' ha =>
        rw [ha] at hkeeps
        exact hkeeps
    · next a v' ha =>
        rw [ha] at hkeeps
        exact hkeeps
  have hone : ∀ p e v, v = w → ((do return (p, ← task (r p)) : Task σ (Path × η)) v).1 = .ok e →
      e.1 = p ∧ l.key e.2 = r p ∧ l.value? w.host.files (r p) = some (l.val e.2) := by
    rintro p e v rfl he
    rw [Task.bind_apply] at he
    split at he
    · next y v' hy =>
        obtain rfl : (p, y) = e := Except.ok.inj he
        obtain ⟨hkey, hvalue⟩ := hl.sound (r p) v y quiet (by rw [hy])
        exact ⟨rfl, hkey, hvalue⟩
    · exact absurd he (by simp)
  obtain ⟨hpaths, hentries, hw⟩ := Task.forAll_eq_ok (I := fun v => v = w) hI rfl h
  refine ⟨hw, fun p hp => ?_, fun e he => ?_⟩
  · obtain ⟨e, he, v, hv, hfe⟩ := hpaths p hp
    exact ⟨e, he, (hone p e v hv hfe).1⟩
  · obtain ⟨p, hp, v, hv, hfe⟩ := hentries e he
    obtain ⟨rfl, hkey, hvalue⟩ := hone p e v hv hfe
    exact ⟨hp, hkey, hvalue⟩

/-- Loading handles on a quiet host gets what there is to load, and changes nothing. -/
theorem loadAll_eq_ok {s : Schedule} (hl : Loads l task) (quiet : w.host.interference = [])
    (h : loadAll s task r paths w = (.ok entries, w')) :
    w' = w ∧ l.Loaded r w.host.files paths entries := by
  obtain ⟨got, hgot, hmem⟩ := mem_of_gatherAll h
  obtain ⟨hw, hloaded⟩ := loaded_of_forAll hl quiet hgot
  refine ⟨hw, fun p hp => ?_, fun e he => ?_⟩
  · rw [← map_fst_of_gatherAll h] at hp
    exact List.mem_map.mp hp
  · obtain ⟨hp, hkey, hvalue⟩ := hloaded.only e (hmem e he)
    exact ⟨Schedule.mem_arrange.mp hp, hkey, hvalue⟩

/-- If there is something to load for every path, it is loaded. -/
theorem exists_loadAll (s : Schedule) (hl : Loads l task) (quiet : w.host.interference = [])
    (h : ∀ p ∈ paths, ∃ v, l.value? w.host.files (r p) = some v) :
    ∃ entries, loadAll s task r paths w = (.ok entries, w) := by
  have hforAll (items : List Path) (hitems : ∀ p ∈ items, p ∈ paths) : ∃ got,
      Task.forAll (fun p => do return (p, ← task (r p))) items w = (.ok got, w) := by
    induction items with
    | nil => exact ⟨[], rfl⟩
    | cons p rest ih =>
        obtain ⟨got, hgot⟩ := ih fun q hq => hitems q (List.mem_cons_of_mem p hq)
        obtain ⟨v, hv⟩ := h p (hitems p List.mem_cons_self)
        obtain ⟨y, hy⟩ := hl.complete (r p) w v quiet hv
        have hone : task (r p) w = (.ok y, w) := Prod.ext hy (hl.keeps (r p) w quiet)
        refine ⟨(p, y) :: got, ?_⟩
        rw [Task.forAll, Task.bind_apply, Task.bind_apply, hone]
        dsimp only [Task.pure_apply]
        rw [Task.bind_apply, hgot]
        rfl
  obtain ⟨got, hgot⟩ := hforAll (s.arrange paths) fun p => Schedule.mem_arrange.mp
  exact exists_gatherAll hgot

end LoadAll

namespace Loader.Loaded

variable {l : Loader η α} {r : Path → Path} {paths : List Path} {fs : Files}
  {entries : List (Path × η)}

/-- A map of what was loaded holds it. -/
theorem holds (h : l.Loaded r fs paths entries)
    (hr : ∀ p q : Path, p.same q = true → (r p).same (r q) = true) {q : Path} (hq : q ∈ paths) :
    l.Holds r fs (.ofList entries) q := by
  obtain ⟨e, he, rfl⟩ := h.all q hq
  obtain ⟨y, hy⟩ := Option.isSome_iff_exists.mp
    (PathMap.find?_ofList_isSome.mpr ⟨e, he, Path.same_refl e.1⟩)
  obtain ⟨p, hp, hs⟩ := PathMap.exists_of_find?_ofList hy
  obtain ⟨-, hkey, hvalue⟩ := h.only (p, y) hp
  obtain ⟨-, -, hvalue'⟩ := h.only e he
  have hs' := hr p e.1 (Path.same_symm hs)
  refine ⟨y, hy, ?_, ?_⟩
  · rw [hkey]
    exact hs'
  · rw [hvalue', Loader.value?_unique hs' hvalue hvalue']

/-- A map of what was loaded has nothing for other paths. -/
theorem find?_eq_none (h : l.Loaded r fs paths entries) {p : Path}
    (hp : ∀ q ∈ paths, p.same q = false) : (PathMap.ofList entries).find? p = none := by
  rcases hfind : (PathMap.ofList entries).find? p with _ | y
  · rfl
  · obtain ⟨q, hq, hs⟩ := PathMap.exists_of_find?_ofList hfind
    rw [hp q (h.only (q, y) hq).1] at hs
    exact absurd hs Bool.false_ne_true

/-- A unit built from what was loaded shows it. -/
theorem shown (h : l.Loaded r fs paths entries) :
    l.Shown r paths fs (.ofList ((entries.map Prod.snd).map fun y => (l.key y, l.val y))) := by
  have hsound : ∀ x v, (PathMap.ofList ((entries.map Prod.snd).map
      fun y => (l.key y, l.val y))).find? x = some v →
      ∃ q ∈ paths, x.same (r q) = true ∧ l.value? fs (r q) = some v := by
    intro x v hfind
    obtain ⟨k, hk, hs⟩ := PathMap.exists_of_find?_ofList hfind
    obtain ⟨y, hy, heq⟩ := List.mem_map.mp hk
    obtain ⟨e, he, rfl⟩ := List.mem_map.mp hy
    obtain ⟨rfl, rfl⟩ := Prod.mk.inj heq
    obtain ⟨hmem, hkey, hvalue⟩ := h.only e he
    rw [hkey] at hs
    exact ⟨e.1, hmem, hs, hvalue⟩
  intro x v
  refine ⟨hsound x v, ?_⟩
  rintro ⟨q, hq, hxq, hvalue⟩
  obtain ⟨e, he, rfl⟩ := h.all q hq
  obtain ⟨-, hkey, -⟩ := h.only e he
  have hentry : (l.key e.2, l.val e.2) ∈
      (entries.map Prod.snd).map fun y => (l.key y, l.val y) :=
    List.mem_map.mpr ⟨e.2, List.mem_map.mpr ⟨e, he, rfl⟩, rfl⟩
  have hxkey : x.same (l.key e.2) = true := by
    rw [hkey]
    exact hxq
  obtain ⟨w, hw⟩ := Option.isSome_iff_exists.mp
    (PathMap.find?_ofList_isSome.mpr ⟨_, hentry, hxkey⟩)
  obtain ⟨p, hp, hxp, hvalue'⟩ := hsound x w hw
  rw [hw, Loader.value?_unique (Path.same_trans (Path.same_symm hxp) hxq) hvalue' hvalue]

end Loader.Loaded

/-! ### Compilations -/

/-- A compilation whose handles and snapshots are in line with the files of a request. -/
structure Compilation.InLine (c : Compilation Path ParsedSource CommandUnit) (o : BuildOptions)
    (fs : Files) : Prop where
  references : ∃ s, c.references? = some s ∧
    referenceLoader.InLine o.resolve o.referencePaths fs s c.references
  sources : ∃ s, c.sources? = some s ∧
    sourceLoader.InLine o.resolve o.sourcePaths fs s c.sources

/-- A unit that shows the files of a request. -/
structure CommandUnit.Shows (u : CommandUnit) (o : BuildOptions) (fs : Files) : Prop where
  references : referenceLoader.Shown o.resolve o.referencePaths fs u.references
  sources : sourceLoader.Shown o.resolve o.sourcePaths fs u.sources

/-- Two units with the same sources and references, by equality of paths. -/
structure CommandUnit.Matches (u v : CommandUnit) : Prop where
  references : ∀ p, u.references.find? p = v.references.find? p
  sources : ∀ p, u.sources.find? p = v.sources.find? p

/-- The next request drops a path that is resolved to the place of one that it lists. -/
def BuildOptions.Clashes (previous next : BuildOptions) : Prop :=
  Clash next.resolve previous.referencePaths next.referencePaths ∨
    Clash next.resolve previous.sourcePaths next.sourcePaths

/-- Equal paths are resolved to equal paths. -/
theorem BuildOptions.resolve_same (o : BuildOptions) (p q : Path) (h : p.same q = true) :
    (o.resolve p).same (o.resolve q) = true :=
  Path.join_same o.workDir h

/-- Maps that show the same files are one map. -/
theorem Loader.Shown.find?_eq {l : Loader η α} {r : Path → Path} {paths : List Path} {fs : Files}
    {a b : PathMap α} (ha : l.Shown r paths fs a) (hb : l.Shown r paths fs b) (p : Path) :
    a.find? p = b.find? p := by
  refine Option.ext fun v => ?_
  rw [ha p v, hb p v]

/-- A unit matches one that shows the files exactly when it shows them too. -/
theorem CommandUnit.Shows.matches_iff {u v : CommandUnit} {o : BuildOptions} {fs : Files}
    (hv : v.Shows o fs) : u.Matches v ↔ u.Shows o fs := by
  constructor
  · intro h
    refine ⟨fun x a => ?_, fun x a => ?_⟩
    · rw [h.references x]
      exact hv.references x a
    · rw [h.sources x]
      exact hv.sources x a
  · intro hu
    exact ⟨hu.references.find?_eq hv.references, hu.sources.find?_eq hv.sources⟩

/-- Handles that were loaded for the paths without repetitions are in line with all of them. -/
theorem Loader.Loaded.inLine {l : Loader η α} {o : BuildOptions} {paths : List Path} {fs : Files}
    {entries : List (Path × η)} {s : Snapshot}
    (h : l.Loaded o.resolve fs (distinct paths) entries)
    (hs : s.TakenOf o.resolve (distinct paths) fs) :
    l.InLine o.resolve paths fs s (.ofList entries) := by
  refine ⟨hs.of_distinct, fun p q hmention => ?_, fun p hmention => ?_⟩
  · exact h.holds o.resolve_same (mem_distinct_of_mention? hmention)
  · rw [← mention?_distinct] at hmention
    exact h.find?_eq_none (mention?_eq_none_iff.mp hmention)

/-- What is shown of the paths without repetitions is what is shown of all of them. -/
theorem Loader.Shown.of_distinct {l : Loader η α} {o : BuildOptions} {paths : List Path}
    {fs : Files} {s : Snapshot} {handles : PathMap η} {view : PathMap α}
    (h : l.Shown o.resolve (distinct paths) fs view)
    (hline : l.InLine o.resolve paths fs s handles) : l.Shown o.resolve paths fs view := by
  intro x v
  rw [h x v]
  constructor
  · rintro ⟨q, hq, hxq, hvalue⟩
    exact ⟨q, mem_of_mention? (mention?_of_mem_distinct hq), hxq, hvalue⟩
  · rintro ⟨q, hq, hxq, hvalue⟩
    obtain ⟨d, hd, hqd, hvalue⟩ := hline.value_mention o.resolve_same hq hvalue
    exact ⟨d, mem_distinct_of_mention? hd, Path.same_trans hxq (o.resolve_same q d hqd), hvalue⟩

namespace Command

variable {command : Compiler} {o previous : BuildOptions} {w w' : World σ}
  {c c' : Compilation Path ParsedSource CommandUnit}

/-- **Creation.** A new compilation is in line with the files, and so is its unit. -/
theorem create_inLine (quiet : w.host.interference = [])
    (h : Compilation.create (engine command) o w = (.ok c, w')) :
    c.InLine o w.host.files ∧ c.unit.Shows o w.host.files := by
  obtain ⟨references, sources, resolved, parsed, w₁, w₂, hreferences, hsources, hresolved, hparsed,
    hunit, hr, hs, hcommitted⟩ := Compilation.create_eq_ok h
  rw [Snapshot.capture_quiet _ _ quiet] at hreferences
  subst hreferences
  rw [Snapshot.capture_quiet _ _ quiet] at hsources
  subst hsources
  obtain ⟨rfl, hresolved⟩ := loadAll_eq_ok loads_resolveReference quiet hresolved
  obtain ⟨rfl, hparsed⟩ := loadAll_eq_ok loads_parseSource quiet hparsed
  have hrline := hresolved.inLine (Snapshot.takenOf_ofStamps _ _ _)
  have hsline := hparsed.inLine (Snapshot.takenOf_ofStamps _ _ _)
  have hunit : unitOf (parsed.map Prod.snd) (resolved.map Prod.snd) o.unitSettings = c.unit :=
    Except.ok.inj (Prod.mk.inj hunit).1
  refine ⟨⟨⟨_, hcommitted.references_eq, ?_⟩, ⟨_, hcommitted.sources_eq, ?_⟩⟩, ?_, ?_⟩
  · rw [hr]
    exact hrline
  · rw [hs]
    exact hsline
  · rw [← hunit]
    exact Loader.Shown.of_distinct hresolved.shown hrline
  · rw [← hunit]
    exact Loader.Shown.of_distinct hparsed.shown hsline

/-- A request in line with whose files some compilation is can be built from scratch. -/
theorem exists_create (command : Compiler) (quiet : w.host.interference = [])
    (hc : c.InLine o w.host.files) :
    ∃ fresh w', Compilation.create (engine command) o w = (.ok fresh, w') := by
  obtain ⟨⟨s, -, hrline⟩, ⟨s', -, hsline⟩⟩ := hc
  have hcapture : ∀ paths, ∃ snapshot, capture o paths w = (.ok snapshot, w) := by
    intro paths
    rw [capture, Task.onHost, Snapshot.capture_quiet _ _ quiet]
    exact ⟨_, rfl⟩
  obtain ⟨references, hreferences⟩ := hcapture (distinct o.referencePaths)
  obtain ⟨sources, hsources⟩ := hcapture (distinct o.sourcePaths)
  obtain ⟨resolved, hresolved⟩ : ∃ resolved,
      resolveAll (engine command) o w.host.resolving (distinct o.referencePaths) w =
        (.ok resolved, w) := by
    refine exists_loadAll _ loads_resolveReference quiet fun p hp => ?_
    obtain ⟨y, -, -, hvalue⟩ := hrline.listed p p (mention?_of_mem_distinct hp)
    exact ⟨_, hvalue⟩
  obtain ⟨parsed, hparsed⟩ : ∃ parsed,
      parseAll (engine command) o w.host.parsing (distinct o.sourcePaths) w =
        (.ok parsed, w) := by
    refine exists_loadAll _ loads_parseSource quiet fun p hp => ?_
    obtain ⟨y, -, -, hvalue⟩ := hsline.listed p p (mention?_of_mem_distinct hp)
    exact ⟨_, hvalue⟩
  refine ⟨⟨.ofList resolved, .ofList parsed,
    unitOf (parsed.map Prod.snd) (resolved.map Prod.snd) o.unitSettings, ⟨some references⟩,
    ⟨some sources⟩⟩, w, ?_⟩
  simp only [Compilation.create, Compilation.createBy, Task.bind_apply, hreferences, hsources,
    hresolved, hparsed]
  rfl

/-- What a unit holds of references, reference by reference. -/
theorem views_references (command : Compiler) :
    referenceLoader.Views (engine (σ := σ) command).addReference
      (engine (σ := σ) command).removeReference CommandUnit.references :=
  ⟨fun _ _ _ => rfl, fun _ _ _ => rfl⟩

/-- What a unit holds of sources, source by source. -/
theorem views_sources (command : Compiler) :
    sourceLoader.Views (engine (σ := σ) command).addSource
      (engine (σ := σ) command).removeSource CommandUnit.sources :=
  ⟨fun _ _ _ => rfl, fun _ _ _ => rfl⟩

/-- Changes of references leave the sources of a unit alone. -/
theorem sources_apply (command : Compiler) (changes : Changes) (fresh : PathMap Path)
    (a : Assembly Path CommandUnit σ) :
    (a.apply (engine command).addReference (engine command).removeReference changes
      fresh).unit.sources = a.unit.sources :=
  Assembly.apply_keeps (P := fun (u : CommandUnit) _ => u.sources = a.unit.sources)
    (fun _ _ _ h => h) (fun _ _ _ h => h) changes fresh rfl

/-- Changes of sources leave the references of a unit alone. -/
theorem references_apply (command : Compiler) (changes : Changes)
    (fresh : PathMap ParsedSource) (a : Assembly ParsedSource CommandUnit σ) :
    (a.apply (engine command).addSource (engine command).removeSource changes
      fresh).unit.references = a.unit.references :=
  Assembly.apply_keeps (P := fun (u : CommandUnit) _ => u.references = a.unit.references)
    (fun _ _ _ h => h) (fun _ _ _ h => h) changes fresh rfl

/-- **Update.** A compilation that is brought up to date is in line with the files. Its unit is if
it was before and no dropped path clashes, and it is not if one does. -/
theorem update_inLine (quiet : w.host.interference = []) {fs : Files} {plan : Plan}
    (hc : c.InLine previous fs) (hdir : previous.workDirectory = o.workDirectory)
    (hdated : Files.Dated fs w.host.files)
    (h : c.update (engine command) o w = (.ok (plan, c'), w')) :
    c'.InLine o w.host.files ∧
      (c.unit.Shows previous fs → ¬ previous.Clashes o → c'.unit.Shows o w.host.files) ∧
      (previous.Clashes o → ¬ c'.unit.Shows o w.host.files) := by
  have hresolve : previous.resolve = o.resolve := by
    funext p
    rw [BuildOptions.resolve, BuildOptions.resolve, BuildOptions.workDir, BuildOptions.workDir,
      hdir]
  obtain ⟨⟨rs, hrs, hrline⟩, ⟨ss, hss, hsline⟩⟩ := hc
  rw [hresolve] at hrline hsline
  have hrbaseline : c.referenceBaseline = ⟨some rs⟩ := congrArg Baseline.mk hrs
  have hsbaseline : c.sourceBaseline = ⟨some ss⟩ := congrArg Baseline.mk hss
  obtain ⟨fresh, w₁, w₂, hplan, hprepare, happly⟩ := Compilation.update_eq_ok h
  obtain ⟨references, sources, hreferences, hsources, rfl, rfl⟩ := Compilation.plan_eq_ok hplan
  rw [Snapshot.capture_quiet _ _ quiet] at hreferences
  subst hreferences
  rw [Snapshot.capture_quiet _ _ quiet] at hsources
  subst hsources
  rw [hrbaseline, hsbaseline] at hprepare happly
  obtain ⟨resolved, w₃, hresolved, hprepare⟩ := Task.bind_eq_ok hprepare
  obtain ⟨parsed, w₄, hparsed, hprepare⟩ := Task.bind_eq_ok hprepare
  obtain ⟨rfl, rfl⟩ := Task.pure_eq_ok hprepare
  change loadAll _ resolveReference o.resolve _ w = _ at hresolved
  change loadAll _ (fun p => parseSource p) o.resolve _ w₃ = _ at hparsed
  obtain ⟨hw₃, hresolved⟩ := loadAll_eq_ok loads_resolveReference quiet hresolved
  rw [hw₃] at hparsed
  obtain ⟨-, hparsed⟩ := loadAll_eq_ok loads_parseSource quiet hparsed
  have hrready := Loader.Ready.mk hrline (Snapshot.takenOf_ofStamps _ _ _) hdated o.resolve_same
    fun q hq => hresolved.holds o.resolve_same hq
  have hsready := Loader.Ready.mk hsline (Snapshot.takenOf_ofStamps _ _ _) hdated o.resolve_same
    fun q hq => hparsed.holds o.resolve_same hq
  rw [Compilation.apply, Task.onEngine, Prod.mk.injEq] at happly
  obtain rfl := Except.ok.inj happly.1
  refine ⟨⟨⟨_, rfl, hrready.inLine_apply _ _ _ _⟩,
    ⟨_, rfl, hsready.inLine_apply _ _ _ _⟩⟩, ?_, ?_⟩
  · rintro ⟨hrshown, hsshown⟩ hclear
    rw [hresolve] at hrshown hsshown
    refine ⟨?_, ?_⟩
    · dsimp only
      rw [references_apply]
      exact hrready.shown_apply (views_references command) hrshown fun hclash =>
        hclear (.inl hclash)
    · refine hsready.shown_apply (views_sources command) ?_ fun hclash => hclear (.inr hclash)
      rw [sources_apply]
      exact hsshown
  · rintro (hclash | hclash) ⟨hrshown, hsshown⟩
    · dsimp only at hrshown
      rw [references_apply] at hrshown
      exact hrready.not_shown_apply (views_references command) hclash hrshown
    · exact hsready.not_shown_apply (views_sources command) hclash hsshown

end Command
end IncrementalBuild
