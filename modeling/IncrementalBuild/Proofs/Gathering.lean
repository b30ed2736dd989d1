import IncrementalBuild.Engine.Command
import IncrementalBuild.Proofs.Compilation
import IncrementalBuild.Proofs.Host
/-!
# Gathering the inputs of a build

Until all its inputs are there, a build only looks at the host and asks the engine for handles and
for a new unit. It writes and removes nothing: what becomes of the host in the meantime is up to
the engine, and to others.

## Main definitions

* `Host.elapse` — the host after some looks.
* `Engine.Gathers` — the worlds that gathering inputs leads to.
* `Engine.OnlyLooks` — an engine that only looks at the host while it gathers.

## Main results

* `Engine.gathers_create`, `Engine.gathers_plan`, `Engine.gathers_prepare` — creating a compilation,
  and the steps of an update before it is applied, gather.
* `Engine.Gathers.elapsed` — the host after an engine that only looks has gathered.
-/

namespace IncrementalBuild

variable {σ ρ φ υ α : Type}

/-! ### Looks -/

/-- The host after some looks: what happens before them has happened. -/
def Host.elapse : Nat → Host → Host
  | 0, h => h
  | n + 1, h => elapse n h.enter.2

namespace Host

/-- Looks follow on looks. -/
theorem elapse_add (m n : Nat) (h : Host) : h.elapse (m + n) = (h.elapse m).elapse n := by
  induction m generalizing h with
  | zero => rw [Nat.zero_add, elapse]
  | succ m ih => rw [Nat.succ_add, elapse, elapse, ih]

/-- Looking at a quiet host changes nothing. -/
theorem elapse_quiet {h : Host} (quiet : h.interference = []) (n : Nat) : h.elapse n = h := by
  induction n with
  | zero => rfl
  | succ n ih => rw [elapse, enter_of_interference_eq_nil quiet, ih]

/-- Looks leave the order in which references are taken up. -/
@[simp] theorem resolving_elapse (n : Nat) (h : Host) : (h.elapse n).resolving = h.resolving := by
  induction n generalizing h with
  | zero => rfl
  | succ n ih =>
      rw [elapse, ih, enter]
      split <;> rfl

/-- Looks leave the order in which sources are taken up. -/
@[simp] theorem parsing_elapse (n : Nat) (h : Host) : (h.elapse n).parsing = h.parsing := by
  induction n generalizing h with
  | zero => rfl
  | succ n ih =>
      rw [elapse, ih, enter]
      split <;> rfl

end Host

/-- Looking is one look, whatever is seen. -/
theorem Access.look_snd (f : Files → Except FileError α) (h : Host) :
    (look f h).2 = h.elapse 1 := by
  rw [look, Host.elapse, Host.elapse]
  split
  · next e h' he => rw [he]
  · next h' he => rw [he]

/-- Capturing a collection is one look at each of its paths. -/
theorem FileStamp.captureAll_snd (base : Path) (paths : List Path) (h : Host) :
    (captureAll base paths h).2 = h.elapse paths.length := by
  induction paths generalizing h with
  | nil => rfl
  | cons p rest ih =>
      rw [captureAll]
      dsimp only
      rw [ih, Access.modified, Access.look_snd, ← Host.elapse_add, List.length_cons, Nat.add_comm]

/-- The snapshot of a collection is one look at each of its paths. -/
theorem Snapshot.capture_snd (base : Path) (paths : List Path) (h : Host) :
    (capture base paths h).2 = h.elapse paths.length :=
  FileStamp.captureAll_snd base paths h

/-! ### Gathering -/

namespace Engine

/-- What a build does until its inputs are there: it looks at the host, and asks the engine for
handles and for a unit. -/
inductive Gathers (engine : Engine σ ρ φ υ) : World σ → World σ → Prop
  | refl (w : World σ) : Gathers engine w w
  | look {w w' : World σ} (before : Gathers engine w w') :
      Gathers engine w ⟨w'.host.enter.2, w'.engine⟩
  | resolveReference {w w' : World σ} (before : Gathers engine w w') (p : Path) :
      Gathers engine w (engine.resolveReference p w').2
  | parseSource {w w' : World σ} (before : Gathers engine w w') (p : Path)
      (defines : List String) : Gathers engine w (engine.parseSource p defines w').2
  | buildUnit {w w' : World σ} (before : Gathers engine w w') (sources : List φ)
      (references : List ρ) (settings : UnitSettings) :
      Gathers engine w (engine.buildUnit sources references settings w').2

variable {engine : Engine σ ρ φ υ} {w w' w'' : World σ}

/-- Gathering goes on from where it led. -/
theorem Gathers.trans (h : engine.Gathers w w') (h' : engine.Gathers w' w'') :
    engine.Gathers w w'' := by
  induction h' with
  | refl => exact h
  | look _ ih => exact ih.look
  | resolveReference _ p ih => exact ih.resolveReference p
  | parseSource _ p defines ih => exact ih.parseSource p defines
  | buildUnit _ sources references settings ih => exact ih.buildUnit sources references settings

instance : IsPreorder (World σ) engine.Gathers where
  refl := .refl
  trans _ _ _ := .trans

/-- Looks are part of gathering. -/
theorem gathers_elapse (n : Nat) (w : World σ) :
    engine.Gathers w ⟨w.host.elapse n, w.engine⟩ := by
  induction n generalizing w with
  | zero => exact .refl w
  | succ n ih => exact (Gathers.refl w).look.trans (ih _)

variable (engine) (o : BuildOptions)

/-- Capturing a collection is part of gathering. -/
theorem gathers_capture (paths : List Path) :
    Task.Along engine.Gathers (capture o paths) := by
  intro w
  rw [capture, Task.onHost]
  dsimp only
  rw [Snapshot.capture_snd]
  exact gathers_elapse _ w

/-- Resolving references is part of gathering. -/
theorem gathers_resolveAll (s : Schedule) (paths : List Path) :
    Task.Along engine.Gathers (resolveAll engine o s paths) :=
  Task.Along.gatherAll (fun _ w => (Gathers.refl w).resolveReference _) s paths

/-- Parsing sources is part of gathering. -/
theorem gathers_parseAll (s : Schedule) (paths : List Path) :
    Task.Along engine.Gathers (parseAll engine o s paths) :=
  Task.Along.gatherAll (fun _ w => (Gathers.refl w).parseSource _ _) s paths

/-- Creating a compilation only gathers. -/
theorem gathers_create : Task.Along engine.Gathers (Compilation.create engine o) := by
  have h (resolving parsing : Schedule) :
      Task.Along engine.Gathers (Compilation.createBy resolving parsing engine o) := by
    refine (gathers_capture engine o _).bind fun _ => (gathers_capture engine o _).bind fun _ => ?_
    refine (gathers_resolveAll engine o _ _).bind fun _ => ?_
    refine (gathers_parseAll engine o _ _).bind fun _ => ?_
    exact Task.Along.bind (fun w => (Gathers.refl w).buildUnit _ _ _) fun _ => Task.Along.pure _
  exact fun w => h w.host.resolving w.host.parsing w

/-- Looking for changes only gathers. -/
theorem gathers_plan (c : Compilation ρ φ υ) :
    Task.Along engine.Gathers (c.plan o : Task σ Plan) :=
  (gathers_capture engine o _).bind fun _ => (gathers_capture engine o _).bind fun _ =>
    Task.Along.pure _

/-- Getting handles for what a plan touches only gathers. -/
theorem gathers_prepare (plan : Plan) : Task.Along engine.Gathers (plan.prepare engine o) := by
  have h (resolving parsing : Schedule) :
      Task.Along engine.Gathers (plan.prepareBy resolving parsing engine o) :=
    (gathers_resolveAll engine o _ _).bind fun _ =>
      (gathers_parseAll engine o _ _).bind fun _ => Task.Along.pure _
  exact fun w => h w.host.resolving w.host.parsing w

/-! ### Engines that only look -/

/-- An engine that only looks at the host while it gets handles and builds units. -/
structure OnlyLooks (engine : Engine σ ρ φ υ) : Prop where
  resolveReference : ∀ p w, ∃ n, (engine.resolveReference p w).2.host = w.host.elapse n
  parseSource : ∀ p defines w, ∃ n, (engine.parseSource p defines w).2.host = w.host.elapse n
  buildUnit : ∀ sources references settings w,
    ∃ n, (engine.buildUnit sources references settings w).2.host = w.host.elapse n

variable {engine}

/-- While an engine that only looks gathers, nothing happens to the host but what others do. -/
theorem Gathers.elapsed (h : engine.Gathers w w') (hlooks : engine.OnlyLooks) :
    ∃ n, w'.host = w.host.elapse n := by
  induction h with
  | refl => exact ⟨0, rfl⟩
  | look _ ih =>
      obtain ⟨n, hn⟩ := ih
      refine ⟨n + 1, ?_⟩
      rw [Host.elapse_add, ← hn]
      rfl
  | resolveReference _ p ih =>
      obtain ⟨n, hn⟩ := ih
      obtain ⟨m, hm⟩ := hlooks.resolveReference p _
      exact ⟨n + m, by rw [hm, hn, Host.elapse_add]⟩
  | parseSource _ p defines ih =>
      obtain ⟨n, hn⟩ := ih
      obtain ⟨m, hm⟩ := hlooks.parseSource p defines _
      exact ⟨n + m, by rw [hm, hn, Host.elapse_add]⟩
  | buildUnit _ sources references settings ih =>
      obtain ⟨n, hn⟩ := ih
      obtain ⟨m, hm⟩ := hlooks.buildUnit sources references settings _
      exact ⟨n + m, by rw [hm, hn, Host.elapse_add]⟩

end Engine

namespace Command

/-- Finding a reference is one look. -/
theorem resolveReference_snd (p : Path) (w : World σ) :
    (resolveReference p w).2 = ⟨w.host.elapse 1, w.engine⟩ := by
  have hlook := Access.look_snd (fun fs => fs.stat p) w.host
  rw [resolveReference, ← hlook, Access.stat]
  rcases Access.look (fun fs => fs.stat p) w.host with ⟨e | (_ | _ | _), host⟩ <;> rfl

/-- Reading a source is one look. -/
theorem parseSource_snd (p : Path) (w : World σ) :
    (parseSource p w).2 = ⟨w.host.elapse 1, w.engine⟩ := by
  have hlook := Access.look_snd (fun fs => fs.readText p) w.host
  rw [parseSource, Task.bind_apply, Task.access, Task.onHost, ← hlook, Access.readText]
  rcases Access.look (fun fs => fs.readText p) w.host with ⟨e | text, host⟩ <;> rfl

/-- The engine that runs a compiler only looks at the host while it gathers. -/
theorem onlyLooks (command : Compiler) : (engine (σ := σ) command).OnlyLooks where
  resolveReference p w := ⟨1, congrArg World.host (resolveReference_snd p w)⟩
  parseSource p _ w := ⟨1, congrArg World.host (parseSource_snd p w)⟩
  buildUnit _ _ _ _ := ⟨0, rfl⟩

end Command
end IncrementalBuild
