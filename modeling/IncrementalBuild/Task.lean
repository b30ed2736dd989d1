import IncrementalBuild.BuildError
import IncrementalBuild.Host
/-!
# Tasks

A task is a part of a build: it works on the host and on what the compiler's engine keeps for
itself, and ends with a value, with a cause for which the build has no result, or with a crash.
Whatever it changed before it failed stays changed.

## Main definitions

* `World` — the host together with the engine's own state.
* `Task` — tasks, with the usual `do` notation.
* `Task.access` — an access to the host as a task.
* `Task.forAll` — a task for every item of a list, stopping at the first failure.
* `Schedule.arrange`, `Task.together` — a task for every item of a list, the items being worked on
  at the same time. Which of several failures is told depends on the order in which they are taken
  up.
-/

namespace IncrementalBuild

/-- Items by the positions at which they are taken up, each among those that are left. -/
def Schedule.arrangeBy {α : Type} : List Nat → List α → List α
  | [], items => items
  | i :: order, items =>
    match items[i]? with
    | some a => a :: arrangeBy order (items.eraseIdx i)
    | none => arrangeBy order items

/-- Items in the order in which they are taken up. -/
def Schedule.arrange {α : Type} (s : Schedule) (items : List α) : List α :=
  arrangeBy s.order items

/-- What a build works on: the host, and what the engine keeps for itself. -/
structure World (σ : Type) where
  host : Host
  engine : σ

/-- A part of a build. -/
def Task (σ α : Type) := World σ → Except Failure α × World σ

namespace Task

variable {σ α β : Type}

/-- The task that does nothing and has the value `a`. -/
def done (a : α) : Task σ α := fun w => (.ok a, w)

/-- One task, then another that depends on its value; a failure skips the second. -/
def andThen (t : Task σ α) (f : α → Task σ β) : Task σ β := fun w =>
  match t w with
  | (.ok a, w) => f a w
  | (.error e, w) => (.error e, w)

instance : Monad (Task σ) where
  pure := done
  bind := andThen

/-- The task that fails for a cause. -/
def fail (cause : BuildError) : Task σ α := fun w => (.error (.error cause), w)

/-- Work on the host that may fail for a cause. -/
def onHost (f : Host → Except BuildError α × Host) : Task σ α := fun w =>
  match f w.host with
  | (.ok a, host) => (.ok a, { w with host })
  | (.error e, host) => (.error (.error e), { w with host })

/-- An access to the host; `cause` says what its failure means for the build. -/
def access (a : Access α) (cause : FileError → BuildError) : Task σ α :=
  onHost fun h =>
    match a h with
    | (.ok v, h) => (.ok v, h)
    | (.error e, h) => (.error (cause e), h)

/-- Work on the engine's own state. -/
def onEngine (f : σ → α × σ) : Task σ α := fun w =>
  let (a, engine) := f w.engine
  (.ok a, { w with engine })

/-- A task for every item of a list, in order, up to the first failure. -/
def forAll (f : α → Task σ β) : List α → Task σ (List β)
  | [] => done []
  | a :: rest => do
    let b ← f a
    let bs ← forAll f rest
    return b :: bs

/-- The world after a task for every item of a list, in order, whatever comes of each. -/
def anyway (f : α → Task σ β) (items : List α) (w : World σ) : World σ :=
  items.foldl (fun w a => (f a w).2) w

/-- A task for every item of a list, in order, up to the first failure; some more items are taken up
after that, and the first failure is told. -/
def untilFailure (further : Nat) (f : α → Task σ β) : List α → Task σ (List β)
  | [] => done []
  | a :: rest => fun w =>
    match f a w with
    | (.error e, w) => (.error e, anyway f (rest.take further) w)
    | (.ok b, w) =>
      match untilFailure further f rest w with
      | (.ok bs, w) => (.ok (b :: bs), w)
      | (.error e, w) => (.error e, w)

/-- A task for every item of a list, the items being worked on at the same time: the values in the
order in which the items were taken up. -/
def together (s : Schedule) (f : α → Task σ β) (items : List α) : Task σ (List β) :=
  untilFailure s.further f (s.arrange items)

@[simp] theorem pure_apply (a : α) (w : World σ) : (pure a : Task σ α) w = (.ok a, w) := rfl

/-- A task up to the first failure, by the outcome for the first item. -/
theorem untilFailure_cons (further : Nat) (f : α → Task σ β) (a : α) (rest : List α)
    (w : World σ) :
    untilFailure further f (a :: rest) w = match f a w with
      | (.error e, w) => (.error e, anyway f (rest.take further) w)
      | (.ok b, w) =>
        match untilFailure further f rest w with
        | (.ok bs, w) => (.ok (b :: bs), w)
        | (.error e, w) => (.error e, w) := rfl

/-- A task in two parts, by the outcome of the first. -/
theorem bind_apply (t : Task σ α) (f : α → Task σ β) (w : World σ) :
    (t >>= f) w = match t w with
      | (.ok a, w) => f a w
      | (.error e, w) => (.error e, w) := rfl

end Task
end IncrementalBuild
