import IncrementalBuild.Converter
import IncrementalBuild.Engine.Recording
import IncrementalBuild.Proofs.Host.Names
import IncrementalBuild.Proofs.Moments
/-!
# What others do to the host

What others do to the host is laid out beforehand: every access meets the next of it. Engines and
converters that reach the host through accesses only meet it too, and plan nothing for others to
do. So whatever holds of all that is still to come goes on holding. Nor do they give a file another
name, as long as the programs that they run give none.

## Main definitions

* `Host.Precedes` — what is to come at the second host is the rest of what was at the first, and no
  file got another name.
* `Host.Undisturbed`, `Host.Calm` — nobody else saves files, and no file has another name; accesses
  may still fail.
* `Runner.LinksNothing` — programs that give no file another name.
* `Engine.PlansNothing`, `Converter.PlansNothing` — what an engine or a converter does to a host
  is not done by others.

## Main results

* `Engine.PlansNothing.create`, `Engine.PlansNothing.update` — nor is anything planned while the
  inputs of a build are gathered.
* `Recording.plansNothing`, `Command.plansNothing` — the engines plan nothing.
* `Converter.plansNothing_running`, `Converter.plansNothing_missing`,
  `Converter.plansNothing_exiting`, `Converter.plansNothing_copying` — nor do the converters.
-/

namespace IncrementalBuild

variable {σ ρ φ υ α : Type} {h h' h'' : Host}

/-! ### What is to come -/

namespace Host

/-- What is to come at a later host is the rest of what was to come, and no file has got another
name by then. -/
structure Precedes (h h' : Host) : Prop where
  rest : h'.interference <:+ h.interference
  names : h.names = [] → h'.names = []

/-- Nobody else saves files; accesses may fail for reasons of their own. -/
def Undisturbed (h : Host) : Prop := ∀ i ∈ h.interference, i.saves = []

/-- Nobody else saves files, and no file has another name; accesses may fail for reasons of their
own. -/
structure Calm (h : Host) : Prop where
  undisturbed : h.Undisturbed
  names : h.names = []

namespace Precedes

/-- Nothing has come yet. -/
theorem refl (h : Host) : Precedes h h := ⟨List.suffix_refl _, id⟩

/-- The rest of the rest is to come. -/
theorem trans (hh : Precedes h h') (hh' : Precedes h' h'') : Precedes h h'' :=
  ⟨hh'.rest.trans hh.rest, fun hnames => hh'.names (hh.names hnames)⟩

/-- Nothing has come if neither what is to come nor the names have changed. -/
theorem of_eq (hrest : h'.interference = h.interference) (hnames : h'.names = h.names) :
    Precedes h h' :=
  ⟨hrest ▸ List.suffix_refl _, hnames.trans⟩

/-- An undisturbed host stays undisturbed. -/
theorem undisturbed (hh : Precedes h h') (hu : h.Undisturbed) : h'.Undisturbed :=
  fun i hi => hu i (hh.rest.subset hi)

/-- A calm host stays calm. -/
theorem calm (hh : Precedes h h') (hc : h.Calm) : h'.Calm :=
  ⟨hh.undisturbed hc.undisturbed, hh.names hc.names⟩

/-- A steady host stays steady. -/
theorem steady (hh : Precedes h h') (hs : h.Steady) : h'.Steady :=
  fun i hi => hs i (hh.rest.subset hi)

end Precedes

/-- One thing happens before an access. -/
theorem precedes_enter (h : Host) : h.Precedes h.enter.2 := by
  refine ⟨?_, h.names_enter.trans⟩
  rw [enter]
  split
  · exact List.suffix_refl _
  · next i later hinterference =>
    rw [hinterference]
    exact List.suffix_cons i later

/-- On an undisturbed host nothing happens to the files before an access. -/
theorem Undisturbed.files_enter (hu : h.Undisturbed) : h.enter.2.files = h.files := by
  rw [enter]
  split
  · rfl
  · next i later hinterference =>
    have hi : i.saves = [] := hu i (by rw [hinterference]; exact List.mem_cons_self)
    dsimp only
    rw [hi]
    rfl

/-- On a calm host nothing happens to the files before an access. -/
theorem Calm.files_enter (hc : h.Calm) : h.enter.2.files = h.files := hc.undisturbed.files_enter

/-- A quiet host on which no file has another name is calm. -/
theorem calm_of_quiet (quiet : h.interference = []) (hnames : h.names = []) : h.Calm :=
  ⟨fun _ hi => absurd hi (quiet ▸ List.not_mem_nil), hnames⟩

/-- On a calm host no file at all has another name. -/
theorem Calm.not_mem_names (hc : h.Calm) (fs : Files) (p : Path) :
    ∀ group ∈ h.names, fs.place p ∉ group := by
  rw [hc.names]
  exact fun group hgroup => absurd hgroup List.not_mem_nil

/-- On a steady host no access fails for a reason of its own. -/
theorem Steady.failure_enter (hs : h.Steady) : h.enter.1 = none := by
  rw [enter]
  split
  · rfl
  · next i later hinterference =>
    exact hs i (by rw [hinterference]; exact List.mem_cons_self)

end Host

/-! ### Accesses -/

namespace Access

/-- A look meets what happens before it. -/
theorem precedes_look (f : Files → Except FileError α) (h : Host) : h.Precedes (look f h).2 := by
  rw [look_snd]
  exact h.precedes_enter

/-- An access meets what happens before it, if nothing is planned by what it does then. -/
theorem precedes_of_enter (act : Access α) (hact : ∀ h : Host, h.Precedes (act h).2) (h : Host) :
    h.Precedes (match h.enter with
      | (some e, h) => ((.error e : Except FileError α), h)
      | (none, h) => act h).2 := by
  have henter := h.precedes_enter
  split
  · next hentered =>
    rw [hentered] at henter
    exact henter
  · next entered hentered =>
    rw [hentered] at henter
    exact henter.trans (hact entered)

/-- A change meets what happens before it. -/
theorem precedes_change (f : Files → Except FileError Files) (h : Host) :
    h.Precedes (change f h).2 := by
  refine precedes_of_enter _ (fun h => ?_) h
  split <;> exact .of_eq rfl rfl

/-- A file that is written meets what happens before it. -/
theorem precedes_fill (p : Path) (f : Files → Except FileError Files) (h : Host) :
    h.Precedes (fill p f h).2 :=
  precedes_change _ h

/-- A file that is moved meets what happens before it. -/
theorem precedes_rename (p q : Path) (h : Host) : h.Precedes (rename p q h).2 := by
  refine precedes_of_enter _ (fun h => ?_) h
  split
  · exact .refl h
  · split
    · exact .refl h
    · split
      · refine ⟨List.suffix_refl _, fun hnames => ?_⟩
        dsimp only
        rw [hnames]
        rfl
      · exact .of_eq rfl rfl

/-- Creating directories meets what happens before it. -/
theorem precedes_createDirectories (p : Path) (h : Host) :
    h.Precedes (createDirectories p h).2 := by
  refine precedes_of_enter _ (fun h => ?_) h
  split <;> exact .of_eq rfl rfl

end Access

/-- Programs give no file another name. -/
def Runner.LinksNothing (runner : Runner) : Prop :=
  ∀ files searchPath name args finished,
    runner files [] searchPath name args = .ok finished → finished.names = []

namespace Access

/-- A program meets what happens before it. -/
theorem precedes_run {runner : Runner} (hlinks : runner.LinksNothing) (name : String)
    (args : List String) (h : Host) : h.Precedes (run runner name args h).2 := by
  refine precedes_of_enter _ (fun h => ?_) h
  split
  · next finished hfinished =>
    refine ⟨List.suffix_refl _, fun hnames => ?_⟩
    rw [hnames] at hfinished
    exact hlinks _ _ _ _ _ hfinished
  · exact .refl h

/-- Making a scratch directory meets what happens before it. -/
theorem precedes_makeScratch (h : Host) : h.Precedes (makeScratch h).2 := by
  have hchange := precedes_change (fun fs => fs.createDirectory (scratchPath h.scratches))
    { h with scratches := h.scratches + 1 }
  rw [makeScratch]
  split <;>
  · next hmade =>
    rw [hmade] at hchange
    exact ⟨hchange.rest, hchange.names⟩

end Access

/-! ### Tasks -/

/-- The worlds whose hosts come one after the other. -/
def World.Precedes (w w' : World σ) : Prop := w.host.Precedes w'.host

instance : IsPreorder (World σ) World.Precedes where
  refl w := Host.Precedes.refl w.host
  trans _ _ _ := Host.Precedes.trans

/-- Work on the host that meets what happens is a task that does. -/
theorem Task.precedes_onHost {f : Host → Except BuildError α × Host}
    (hf : ∀ h : Host, h.Precedes (f h).2) :
    Task.Along World.Precedes (Task.onHost f : Task σ α) := by
  intro w
  have hhost := hf w.host
  rw [World.Precedes, Task.onHost]
  split <;>
  · next hdone =>
    rw [hdone] at hhost
    exact hhost

/-- An access is a task that meets what happens. -/
theorem Task.precedes_access {a : Access α} (ha : ∀ h : Host, h.Precedes (a h).2)
    (cause : FileError → BuildError) :
    Task.Along World.Precedes (Task.access a cause : Task σ α) := by
  refine Task.precedes_onHost fun h => ?_
  have hhost := ha h
  split <;>
  · next hdone =>
    rw [hdone] at hhost
    exact hhost

/-! ### Engines -/

/-- An engine meets what others do to the host, and plans nothing for them to do. -/
structure Engine.PlansNothing (engine : Engine σ ρ φ υ) : Prop where
  resolveReference : ∀ p, Task.Along World.Precedes (engine.resolveReference p)
  parseSource : ∀ p defines, Task.Along World.Precedes (engine.parseSource p defines)
  buildUnit : ∀ sources references settings,
    Task.Along World.Precedes (engine.buildUnit sources references settings)
  emit : ∀ unit format, Task.Along World.Precedes (engine.emit unit format)

namespace Engine.PlansNothing

variable {engine : Engine σ ρ φ υ} {w w' : World σ} {o : BuildOptions}

/-- Gathering inputs meets what happens. -/
theorem gathers (hengine : engine.PlansNothing) (hg : engine.Gathers w w') :
    w.host.Precedes w'.host := by
  induction hg with
  | refl => exact .refl _
  | look _ ih => exact ih.trans (Host.precedes_enter _)
  | resolveReference _ p ih => exact ih.trans (hengine.resolveReference p _)
  | parseSource _ p defines ih => exact ih.trans (hengine.parseSource p defines _)
  | buildUnit _ sources references settings ih =>
      exact ih.trans (hengine.buildUnit sources references settings _)

/-- Creating a compilation meets what happens. -/
theorem create {c : Compilation ρ φ υ} (hengine : engine.PlansNothing)
    (h : Compilation.create engine o w = (.ok c, w')) : w.host.Precedes w'.host := by
  have hg := gathers_create engine o w
  rw [h] at hg
  exact hengine.gathers hg

/-- Bringing a compilation up to date meets what happens. -/
theorem update {c c' : Compilation ρ φ υ} {plan : Plan} (hengine : engine.PlansNothing)
    (h : c.update engine o w = (.ok (plan, c'), w')) : w.host.Precedes w'.host := by
  obtain ⟨fresh, w₁, w₂, hplan, hprepare, happly⟩ := Compilation.update_eq_ok h
  have hgplan := gathers_plan engine o c w
  rw [hplan] at hgplan
  have hgprepare := gathers_prepare engine o plan w₁
  rw [hprepare] at hgprepare
  -- Applying the changes is work on the engine's own state.
  have hhost : w'.host = w₂.host := by rw [← (Prod.mk.inj happly).2]
  rw [hhost]
  exact (hengine.gathers hgplan).trans (hengine.gathers hgprepare)

end Engine.PlansNothing

/-- The engine that records plans nothing. -/
theorem Recording.plansNothing : Recording.engine.PlansNothing where
  resolveReference p w := by
    have hread := Access.precedes_look (fun fs => fs.readText p) w.host
    change w.host.Precedes (resolveReference p w).2.host
    rw [resolveReference, Access.readText]
    dsimp only
    split
    · next hlook =>
      rw [hlook] at hread
      exact hread
    · next hlook =>
      rw [hlook] at hread
      split <;> exact hread
  parseSource p defines w := by
    have hread := Access.precedes_look (fun fs => fs.readText p) w.host
    change w.host.Precedes (parseSource p defines w).2.host
    rw [parseSource, Access.readText]
    dsimp only
    split
    · next hlook =>
      rw [hlook] at hread
      exact hread
    · next host hlook =>
      rw [hlook] at hread
      have hsave : ∀ w' : World State, w'.host.Precedes (performSave p w').host := by
        intro w'
        rw [performSave]
        split
        · exact .refl _
        · split <;> exact .of_eq rfl rfl
      split <;> exact Host.Precedes.trans hread (hsave ⟨host, _⟩)
  buildUnit sources references settings w := by
    change w.host.Precedes (buildUnit sources references settings w).2.host
    rw [buildUnit]
    split <;> exact .refl _
  emit _ _ w := .refl w.host

namespace Command

/-- A task in a scratch directory meets what happens if the task does. -/
theorem precedes_inScratch {t : Path → Task σ α} (ht : ∀ dir, Task.Along World.Precedes (t dir)) :
    Task.Along World.Precedes (inScratch t) := by
  refine (Task.precedes_access Access.precedes_makeScratch _).bind fun dir w => ?_
  have htask := ht dir w
  rcases hdone : t dir w with ⟨outcome, w'⟩
  rw [hdone] at htask
  exact Host.Precedes.trans htask (Access.precedes_change _ _)

/-- Taking what a run wrote meets what happens. -/
theorem precedes_takeBinary (dir : Path) (succeeded : Bool) :
    Task.Along World.Precedes (takeBinary (σ := σ) dir succeeded) := by
  intro w
  have hread := Access.precedes_look (fun fs => fs.read (binaryFile dir)) w.host
  rw [takeBinary, Access.read]
  split <;>
  · next hlook =>
    rw [hlook] at hread
    exact hread

/-- Taking the symbols that a run wrote meets what happens. -/
theorem precedes_takeSymbols (dir : Path) (format : Option SymbolFormat) :
    Task.Along World.Precedes (takeSymbols (σ := σ) dir format) := by
  intro w
  cases format with
  | none => exact .refl w.host
  | some format =>
      have hread := Access.precedes_look (fun fs => fs.read (symbolFile dir)) w.host
      rw [takeSymbols, Access.read]
      split <;>
      · next hlook =>
        rw [hlook] at hread
        exact hread

/-- The engine that runs a compiler plans nothing, if the compiler gives no file another name. -/
theorem plansNothing {command : Compiler} (hlinks : command.runner.LinksNothing) :
    (engine (σ := σ) command).PlansNothing where
  resolveReference p w := by
    change w.host.Precedes (resolveReference p w).2.host
    rw [resolveReference_snd]
    exact w.host.precedes_enter
  parseSource p _ w := by
    change w.host.Precedes (parseSource p w).2.host
    rw [parseSource_snd]
    exact w.host.precedes_enter
  buildUnit _ _ _ w := .refl w.host
  emit unit format := by
    refine precedes_inScratch fun dir => ?_
    refine Task.Along.bind (Task.Along.bind (Task.Along.forAll (fun _ => ?_) _)
      fun _ => Task.Along.pure _) fun _ => ?_
    · exact Task.precedes_access (Access.precedes_fill _ _) _
    · refine (Task.precedes_access (Access.precedes_run hlinks _ _) _).bind fun _ => ?_
      refine (precedes_takeBinary dir _).bind fun _ => ?_
      exact (precedes_takeSymbols dir format).bind fun _ => Task.Along.pure _

end Command

/-! ### Converters -/

/-- A converter meets what others do to the host, and plans nothing for them to do. -/
def Converter.PlansNothing (c : Converter) : Prop :=
  ∀ (binary : Path) (h : Host), h.Precedes (c binary h).2

namespace Converter

/-- A converter that runs a program plans nothing, if the program gives no file another name. -/
theorem plansNothing_running {runner : Runner} (hlinks : runner.LinksNothing) (program : Path) :
    (running runner program).PlansNothing := by
  intro binary h
  have hrun := Access.precedes_run hlinks program.text [binary.text] h
  rw [running]
  split <;>
  · next hfinished =>
    rw [hfinished] at hrun
    exact hrun

/-- A converter that only fails plans nothing. -/
theorem plansNothing_missing (reason : String) : (missing reason).PlansNothing :=
  fun _ h => .refl h

/-- A converter that copies symbols plans nothing. -/
theorem plansNothing_copying : copying.PlansNothing := by
  intro binary h
  have hread := Access.precedes_look (fun fs => fs.read (nativeSymbolPath binary)) h
  rw [copying, Access.read]
  split
  · next hlook =>
    rw [hlook] at hread
    exact hread
  · next symbols h₁ hlook =>
    rw [hlook] at hread
    have hwrite := Access.precedes_fill (portableSymbolPath binary) (fun fs =>
      fs.write (portableSymbolPath binary) (Bytes.ofString "CONVERTED:" ++ symbols)) h₁
    rw [Access.write]
    split <;>
    · next hwritten =>
      rw [hwritten] at hwrite
      exact hread.trans hwrite

/-- A converter that only returns a code plans nothing. -/
theorem plansNothing_exiting (code : Int) : (exiting code).PlansNothing :=
  fun _ h => .refl h

end Converter
end IncrementalBuild
