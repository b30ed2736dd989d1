import IncrementalBuild.Proofs.Engine.Watched
/-!
# Which calls a task makes

A watched task adds calls to the ledger and takes none away. Getting handles asks for references
and sources; creating a compilation builds a unit from them as well. Neither changes a unit or
emits one.

## Main definitions

* `EngineCall.asks`, `EngineCall.gathers` — calls that ask for a handle, and calls that do or build
  a unit from handles.
* `World.Adds`, `Task.Calls` — a watched task makes calls of a kind only.
* `Plan.asks` — the calls that ask for the handles of a plan.

## Main results

* `Engine.calls_prepare`, `Engine.calls_create` — the calls of the steps of a build.
* `Engine.calls_of_prepare` — a plan whose inputs were all gathered was asked for once.
-/

namespace IncrementalBuild

variable {σ ρ φ υ α β η : Type}

/-! ### Kinds of calls -/

/-- A call that asks for a handle. -/
def EngineCall.asks : EngineCall ρ φ → Bool
  | .resolveReference _ => true
  | .parseSource _ _ => true
  | _ => false

/-- A call that asks for a handle or builds a unit from handles. -/
def EngineCall.gathers : EngineCall ρ φ → Bool
  | .buildUnit _ _ _ => true
  | call => call.asks

/-- A call that emits a unit. -/
def EngineCall.emits (call : EngineCall ρ φ) : Bool := call.emission?.isSome

/-- A call that asks for a handle is one that gathers. -/
theorem EngineCall.gathers_of_asks {call : EngineCall ρ φ} (h : call.asks = true) :
    call.gathers = true := by
  cases call <;> first | rfl | exact h

/-! ### Tasks and their calls -/

/-- The ledger of the second world has more calls, all of one kind. -/
def World.Adds (kind : EngineCall ρ φ → Bool) (w w' : World (Ledger σ ρ φ)) : Prop :=
  ∃ made, w'.engine.calls = w.engine.calls ++ made ∧ ∀ call ∈ made, kind call = true

instance (kind : EngineCall ρ φ → Bool) :
    IsPreorder (World (Ledger σ ρ φ)) (World.Adds kind) where
  refl w := ⟨[], (List.append_nil _).symm, fun call hcall => absurd hcall List.not_mem_nil⟩
  trans := by
    rintro a b c ⟨first, hfirst, hkind⟩ ⟨second, hsecond, hkind'⟩
    refine ⟨first ++ second, by rw [hsecond, hfirst, List.append_assoc], fun call hcall => ?_⟩
    rcases List.mem_append.mp hcall with hcall | hcall
    · exact hkind call hcall
    · exact hkind' call hcall

namespace Task

variable {kind : EngineCall ρ φ → Bool}

/-- A watched task makes calls of a kind only. -/
def Calls (kind : EngineCall ρ φ → Bool) (t : Task (Ledger σ ρ φ) α) : Prop :=
  Along (World.Adds kind) t

namespace Calls

/-- Work on the host makes no calls. -/
theorem onHost (act : Host → Except BuildError α × Host) :
    Calls kind (Task.onHost act : Task (Ledger σ ρ φ) α) := by
  intro w
  have hkeeps : (Task.onHost act w).2.engine.calls = w.engine.calls :=
    Keeps.onHost (g := Ledger.calls) act w
  exact ⟨[], by rw [hkeeps, List.append_nil], fun call hcall => absurd hcall List.not_mem_nil⟩

/-- A recorded task makes its call. -/
theorem watchTask {call : Except Failure α → EngineCall ρ φ} (hcall : ∀ r, kind (call r) = true)
    (t : Task σ α) : Calls kind (Engine.watchTask call t) := by
  intro w
  refine ⟨[call (t ⟨w.host, w.engine.state⟩).1], rfl, fun made hmade => ?_⟩
  rw [List.mem_singleton.mp hmade]
  exact hcall _

/-- Calls of a kind are calls of a wider one. -/
theorem mono {wider : EngineCall ρ φ → Bool} {t : Task (Ledger σ ρ φ) α} (h : Calls kind t)
    (hkind : ∀ call, kind call = true → wider call = true) : Calls wider t := by
  intro w
  obtain ⟨made, hmade, hall⟩ := h w
  exact ⟨made, hmade, fun call hcall => hkind call (hall call hcall)⟩

end Calls
end Task

/-! ### Steps of a build -/

namespace Engine

variable (e : Engine σ ρ φ υ) (o : BuildOptions)

/-- Resolving references asks for handles. -/
theorem calls_resolveAll (s : Schedule) (paths : List Path) :
    Task.Calls EngineCall.asks (resolveAll e.watched o s paths) := by
  refine Task.Along.gatherAll (fun p => ?_) s paths
  exact Task.Calls.watchTask (fun _ => rfl) (e.resolveReference (o.resolve p))

/-- Parsing sources asks for handles. -/
theorem calls_parseAll (s : Schedule) (paths : List Path) :
    Task.Calls EngineCall.asks (parseAll e.watched o s paths) := by
  refine Task.Along.gatherAll (fun p => ?_) s paths
  exact Task.Calls.watchTask (fun _ => rfl) (e.parseSource (o.resolve p) o.defines)

/-- Getting handles for what a plan touches asks for them. -/
theorem calls_prepare (plan : Plan) :
    Task.Calls EngineCall.asks (plan.prepare e.watched o) := by
  have h (resolving parsing : Schedule) :
      Task.Calls EngineCall.asks (plan.prepareBy resolving parsing e.watched o) :=
    (calls_resolveAll e o _ _).bind fun _ => (calls_parseAll e o _ _).bind fun _ =>
      Task.Along.pure _
  exact fun w => h w.host.resolving w.host.parsing w

/-- Creating a compilation asks for handles and builds a unit. -/
theorem calls_create :
    Task.Calls EngineCall.gathers (Compilation.create e.watched o) := by
  have hwider : ∀ call : EngineCall ρ φ, call.asks = true → call.gathers = true :=
    fun _ => EngineCall.gathers_of_asks
  have h (resolving parsing : Schedule) :
      Task.Calls EngineCall.gathers (Compilation.createBy resolving parsing e.watched o) := by
    refine (Task.Calls.onHost _).bind fun _ => (Task.Calls.onHost _).bind fun _ => ?_
    refine ((calls_resolveAll e o _ _).mono hwider).bind fun _ => ?_
    refine ((calls_parseAll e o _ _).mono hwider).bind fun _ => ?_
    refine Task.Along.bind ?_ fun _ => Task.Along.pure _
    exact (Task.Calls.watchTask (fun _ => rfl) _).bind fun _ => Task.Along.pure _
  exact fun w => h w.host.resolving w.host.parsing w

end Engine

/-! ### Gathering in full -/

/-- The calls that ask for the handles of a plan: one for every touched path, in the orders of the
host. -/
def Plan.asks (plan : Plan) (h : Host) (o : BuildOptions) : List (EngineCall ρ φ) :=
  (h.resolving.arrange plan.references.touched).map (fun p => .resolveReference (o.resolve p)) ++
    (h.parsing.arrange plan.sources.touched).map fun p => .parseSource (o.resolve p) o.defines

namespace Engine

variable {e : Engine σ ρ φ υ} {o : BuildOptions} {w w' : World (Ledger σ ρ φ)}

/-- A task that gets a value for every path with one call gets them with one call for each. -/
theorem calls_of_forAll {task : Path → Task (Ledger σ ρ φ) η} (call : Path → EngineCall ρ φ)
    (htask : ∀ p w, (task p w).2.engine.calls = w.engine.calls ++ [call p]) {paths : List Path}
    {entries : List (Path × η)}
    (h : Task.forAll (fun p => do return (p, ← task p)) paths w = (.ok entries, w')) :
    w'.engine.calls = w.engine.calls ++ paths.map call := by
  induction paths generalizing w entries with
  | nil =>
      obtain ⟨-, rfl⟩ := Task.pure_eq_ok h
      exact (List.append_nil _).symm
  | cons p rest ih =>
      obtain ⟨entry, w₁, hentry, h⟩ := Task.bind_eq_ok h
      obtain ⟨others, w₂, hothers, h⟩ := Task.bind_eq_ok h
      obtain ⟨-, rfl⟩ := Task.pure_eq_ok h
      obtain ⟨y, w₃, hy, hentry⟩ := Task.bind_eq_ok hentry
      obtain ⟨-, rfl⟩ := Task.pure_eq_ok hentry
      have hmade := htask p w
      rw [hy] at hmade
      rw [ih hothers, hmade, List.append_assoc]
      rfl

/-- Inputs that are worked on at the same time are got with one call for each. -/
theorem calls_of_gatherAll {task : Path → Task (Ledger σ ρ φ) η} (call : Path → EngineCall ρ φ)
    (htask : ∀ p w, (task p w).2.engine.calls = w.engine.calls ++ [call p]) {s : Schedule}
    {paths : List Path} {entries : List (Path × η)}
    (h : gatherAll s task paths w = (.ok entries, w')) :
    w'.engine.calls = w.engine.calls ++ (s.arrange paths).map call := by
  obtain ⟨got, hgot, -⟩ := gatherAll_eq_ok h
  exact calls_of_forAll call htask hgot

/-- **Gathering.** A plan whose inputs were all gathered was asked for once, the references
first. -/
theorem calls_of_prepare {plan : Plan} {fresh : Fresh ρ φ}
    (h : plan.prepare e.watched o w = (.ok fresh, w')) :
    w'.engine.calls = w.engine.calls ++ plan.asks w.host o := by
  obtain ⟨resolved, w₁, hresolved, h⟩ := Task.bind_eq_ok h
  obtain ⟨parsed, w₂, hparsed, h⟩ := Task.bind_eq_ok h
  obtain ⟨-, rfl⟩ := Task.pure_eq_ok h
  have hreferences := calls_of_gatherAll
    (fun p => .resolveReference (o.resolve p)) (fun _ _ => rfl) hresolved
  have hsources := calls_of_gatherAll
    (fun p => .parseSource (o.resolve p) o.defines) (fun _ _ => rfl) hparsed
  rw [hsources, hreferences, List.append_assoc, Plan.asks]

end Engine
end IncrementalBuild
