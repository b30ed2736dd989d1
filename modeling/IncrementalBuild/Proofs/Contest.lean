import IncrementalBuild.Proofs.Host.Sockets
import IncrementalBuild.Server
/-!
# Servers side by side

Several servers may start, listen and close on one host at the same time. Here a life is cut into
its single steps, and the steps of different servers come in any order. A server that is alone goes
through its life as it is defined; what others do in between is all that makes a difference.

A socket file is bound before its server listens. A connection that comes between the two is
refused, as by a server that is dead.

## Ledger convention

The log of a contest gets an entry for each deed of a server that bears on the others: that it was
refused when it knocked at the socket file, that it cleared the file away, bound its own, began to
listen, stopped, and removed the file when it closed. The latest entry comes first. The servers do
not see the log.

## Main definitions

* `Server.Stage`, `Server.Deed` — how far a server has come, and what it did.
* `Server.Contest`, `Contest.step`, `Contest.run` — servers on a host, a step of one of them, and
  what the steps of a schedule lead to.
* `Contest.After` — one deed came after another one.

## Main results

* `Contest.start_alone`, `Contest.finish_alone` — the two halves of a life, step by step.
-/

namespace IncrementalBuild

/-- The socket file of an endpoint, if it has one. -/
def Endpoint.file? : Endpoint → Option Path
  | .localSocket _ p => some p
  | .loopbackHttp _ _ => none

namespace Server

/-- How far a server has come. -/
inductive Stage
  /-- It has not begun. -/
  | coming
  /-- It is about to look whether something stands at the path of its socket file. -/
  | looking
  /-- Something stands there. -/
  | knocking
  /-- Nobody answered there. -/
  | clearing
  /-- It is about to bind its endpoint. -/
  | binding
  /-- It bound its endpoint, and does not listen yet. -/
  | bound (number : Nat)
  | listening (number : Nat)
  /-- It stopped listening. -/
  | closing
  | ended
  deriving DecidableEq

/-- The number of a server that has an endpoint. -/
def Stage.number? : Stage → Option Nat
  | .bound n => some n
  | .listening n => some n
  | _ => none

/-- What a server does that bears on others. -/
inductive Act
  /-- A connection that it tried was refused. -/
  | knocked
  /-- It removed a socket file to make way for its own. -/
  | cleared
  | bound
  | began
  | stopped
  /-- It removed a socket file when it closed. -/
  | removed
  deriving DecidableEq

/-- What a server did. -/
structure Deed where
  server : Nat
  act : Act
  deriving DecidableEq

/-- Makes the directory of a socket file, for an endpoint that has one. -/
def prepare (e : Endpoint) : Access Unit :=
  match e.file? with
  | some p => makeDirectory p
  | none => fun h => (.ok (), h)

/-- Binds an endpoint, as the next server. -/
def bind (e : Endpoint) : Access Nat :=
  match e with
  | .localSocket _ p => Access.listenSocket p
  | .loopbackHttp _ port => Access.listenPort port

/-- Servers on a host, which are told apart by numbers of their own. -/
structure Contest where
  host : Host
  stage : Nat → Stage := fun _ => .coming
  /-- The servers that bound an endpoint, by the numbers that they did it under. -/
  numbers : List (Nat × Nat) := []
  log : List Deed := []

namespace Contest

/-- A server that comes to another stage. -/
def move (i : Nat) (x : Stage) (c : Contest) : Contest :=
  { c with stage := fun j => if j = i then x else c.stage j }

/-- A deed of a server. -/
def note (i : Nat) (a : Act) (c : Contest) : Contest := { c with log := ⟨i, a⟩ :: c.log }

/-- Whether a number is that of a server that does not listen yet. -/
def silent (c : Contest) (n : Nat) : Bool :=
  match c.numbers.lookup n with
  | some i => c.stage i == .bound n
  | none => false

/-- The server that accepts a connection to an endpoint. -/
def connect (c : Contest) (e : Endpoint) : Except FileError Nat × Host :=
  match Access.connect e c.host with
  | (.ok n, h) => (if c.silent n then .error .connectionRefused else .ok n, h)
  | (.error cause, h) => (.error cause, h)

/-- The next step of a server. -/
def step (servers : Nat → Server) (c : Contest) (i : Nat) : Contest :=
  let e := (servers i).endpoint
  match c.stage i with
  | .coming =>
    if (servers i).owner ≠ 0 ∧ !c.host.isRunning (servers i).owner then c.move i .ended
    else
      match prepare e c.host with
      | (.ok (), host) => { c with host }.move i .looking
      | (.error _, host) => { c with host }.move i .ended
  | .looking =>
    match e.file? with
    | none => c.move i .binding
    | some p =>
      match isThere p c.host with
      | (true, host) => { c with host }.move i .knocking
      | (false, host) => { c with host }.move i .binding
  | .knocking =>
    match c.connect e with
    | (.ok _, host) => { c with host }.move i .ended
    | (.error _, host) => ({ c with host }.move i .clearing).note i .knocked
  | .clearing =>
    match e.file? with
    | none => c.move i .binding
    | some p =>
      match Access.remove p c.host with
      | (.ok (), host) => ({ c with host }.move i .binding).note i .cleared
      | (.error _, host) => { c with host }.move i .ended
  | .binding =>
    match bind e c.host with
    | (.ok n, host) =>
      ({ c with host, numbers := (n, i) :: c.numbers }.move i (.bound n)).note i .bound
    | (.error _, host) => { c with host }.move i .ended
  | .bound n => (c.move i (.listening n)).note i .began
  | .listening n => ({ c with host := c.host.stopListening n }.move i .closing).note i .stopped
  | .closing =>
    match e.file? with
    | none => c.move i .ended
    | some p =>
      match Access.remove p c.host with
      | (.ok (), host) => ({ c with host }.move i .ended).note i .removed
      | (.error _, host) => { c with host }.move i .ended
  | .ended => c

/-- What the steps of a schedule lead to. Each entry is the next step of a server. -/
def run (servers : Nat → Server) (schedule : List Nat) (c : Contest) : Contest :=
  schedule.foldl (step servers) c

/-- The first entry of a schedule is taken first. -/
theorem run_cons (servers : Nat → Server) (i : Nat) (rest : List Nat) (c : Contest) :
    run servers (i :: rest) c = run servers rest (c.step servers i) := rfl

/-! ### What came after what -/

section Log

variable {log : List Deed} {a b x : Deed}

/-- One deed came after another one. -/
def After (log : List Deed) (a b : Deed) : Prop := [a, b].Sublist log

/-- A new deed came after all others. -/
theorem after_cons : After (x :: log) a b ↔ After log a b ∨ a = x ∧ b ∈ log := by
  rw [After, List.sublist_cons_iff]
  constructor
  · rintro (h | ⟨rest, heq, h⟩)
    · exact .inl h
    · obtain ⟨rfl, rfl⟩ := List.cons.inj heq
      exact .inr ⟨rfl, List.singleton_sublist.mp h⟩
  · rintro (h | ⟨rfl, h⟩)
    · exact .inl h
    · exact .inr ⟨[b], rfl, List.singleton_sublist.mpr h⟩

/-- What came after another deed did so at any later time. -/
theorem After.cons (h : After log a b) : After (x :: log) a b := after_cons.mpr (.inl h)

/-- What something came after happened. -/
theorem After.mem (h : After log a b) : b ∈ log := List.Sublist.mem (by simp) h

end Log

/-! ### Moves -/

section Moves

variable (c : Contest) (i : Nat) (x : Stage)

/-- The stage that a server moves to. -/
@[simp] theorem stage_move : (c.move i x).stage i = x := if_pos rfl

/-- The stages of other servers. -/
theorem stage_move_of_ne {j : Nat} (h : j ≠ i) : (c.move i x).stage j = c.stage j := if_neg h

/-- A deed changes no stage. -/
@[simp] theorem stage_note (a : Act) : (c.note i a).stage = c.stage := rfl

/-- A move that binds nothing silences nobody. -/
theorem silent_move (hx : ∀ n, x ≠ .bound n) {n : Nat} (h : c.silent n = false) :
    (c.move i x).silent n = false := by
  rw [silent] at h ⊢
  change (match c.numbers.lookup n with
    | some j => (c.move i x).stage j == .bound n
    | none => false) = false
  split
  · next j hj =>
    rw [hj] at h
    by_cases hji : j = i
    · rw [hji, stage_move]
      exact beq_eq_false_iff_ne.mpr (hx n)
    · rw [stage_move_of_ne c i x hji]
      exact h
  · rfl

end Moves

/-- Where nobody is silent, connections go as they do on the host. -/
theorem connect_of_sound {c : Contest} {e : Endpoint} (hsound : ∀ n, c.silent n = false) :
    c.connect e = Access.connect e c.host := by
  rw [connect]
  rcases Access.connect e c.host with ⟨cause | n, h⟩
  · rfl
  · simp only [hsound n]
    rfl

/-! ### A server alone -/

section Alone

variable {servers : Nat → Server} {c : Contest} {i owner : Nat} {P : Contest → Prop}
  {e : Endpoint} {p : Path}

/-- The steps of one server lead to a contest with a property. -/
def Alone (servers : Nat → Server) (i : Nat) (P : Contest → Prop) (c : Contest) : Prop :=
  ∃ steps, P (run servers (List.replicate steps i) c)

/-- No step is needed. -/
theorem Alone.now (h : P c) : Alone servers i P c := ⟨0, h⟩

/-- After one step, the others lead there. -/
theorem Alone.step (h : Alone servers i P (c.step servers i)) : Alone servers i P c := by
  obtain ⟨steps, h⟩ := h
  exact ⟨steps + 1, h⟩

/-- A property may be replaced by what it implies. -/
theorem Alone.imp {Q : Contest → Prop} (h : Alone servers i P c) (himp : ∀ c', P c' → Q c') :
    Alone servers i Q c := by
  obtain ⟨steps, h⟩ := h
  exact ⟨steps, himp _ h⟩

/-- A server that has bound its endpoint listens next. -/
theorem alone_bound {n : Nat} (hstage : c.stage i = .bound n)
    (h : ∀ c', c'.stage i = .listening n → c'.host = c.host → P c') : Alone servers i P c := by
  refine .step (.now (h _ ?_ ?_))
  · rw [Contest.step, hstage]
    exact stage_move c i _
  · rw [Contest.step, hstage]
    rfl

/-- How a contest shows what opening an endpoint leads to. -/
def Opened (i : Nat) (c : Contest) : Except CallError Nat × Host → Prop
  | (.ok n, h) => c.stage i = .listening n ∧ c.host = h
  | (.error _, h) => c.stage i = .ended ∧ c.host = h

variable (he : (servers i).endpoint = e)
include he

/-- A server that is about to bind its endpoint listens next, or ends. -/
theorem alone_binding (hstage : c.stage i = .binding) :
    Alone servers i (Opened i · (Server.step e (bind e) c.host)) c := by
  refine .step ?_
  rw [Contest.step, hstage]
  dsimp only
  rw [he, Server.step]
  rcases bind e c.host with ⟨cause | n, host⟩
  · exact .now ⟨stage_move _ i _, rfl⟩
  · exact alone_bound (stage_move _ i _) fun c' hlistens hhost => ⟨hlistens, hhost⟩

/-- A server that is about to clear a file away binds its endpoint next, or ends. -/
theorem alone_clearing (hfile : e.file? = some p) (hstage : c.stage i = .clearing) :
    Alone servers i (Opened i · (match Server.step e (Access.remove p) c.host with
      | (.error cause, h) => (.error cause, h)
      | (.ok (), h) => Server.step e (bind e) h)) c := by
  refine .step ?_
  rw [Contest.step, hstage]
  dsimp only
  rw [he, hfile]
  dsimp only
  rw [Server.step]
  rcases Access.remove p c.host with ⟨cause | _, host⟩
  · exact .now ⟨stage_move _ i _, rfl⟩
  · exact alone_binding he (stage_move _ i _)

/-- A server at whose socket file something stands ends if a live server answers there. -/
theorem alone_knocking (hsocket : e = .localSocket owner p) (hstage : c.stage i = .knocking)
    (hsound : ∀ n, c.silent n = false) :
    Alone servers i (Opened i · (match (match isLive p c.host with
        | (true, h) => (.error (.bind e.display "another server is already listening"), h)
        | (false, h) => Server.step e (Access.remove p) h : Except CallError Unit × Host) with
      | (.error cause, h) => (.error cause, h)
      | (.ok (), h) => Server.step e (bind e) h)) c := by
  have hfile : e.file? = some p := by rw [hsocket]; rfl
  refine .step ?_
  rw [Contest.step, hstage]
  dsimp only
  rw [he, connect_of_sound hsound, isLive]
  have hconnect : Access.connect e = Access.connectSocket p := by rw [hsocket]; rfl
  rw [hconnect]
  rcases Access.connectSocket p c.host with ⟨cause | n, host⟩
  · exact alone_clearing he hfile (stage_move _ i _)
  · exact .now ⟨stage_move _ i _, rfl⟩

/-- A server that is about to look makes way for its socket file first. -/
theorem alone_looking (hsocket : e = .localSocket owner p) (hstage : c.stage i = .looking)
    (hsound : ∀ n, c.silent n = false) :
    Alone servers i (Opened i · (match Server.clear e p c.host with
      | (.error cause, h) => (.error cause, h)
      | (.ok (), h) => Server.step e (bind e) h)) c := by
  have hfile : e.file? = some p := by rw [hsocket]; rfl
  refine .step ?_
  rw [Contest.step, hstage]
  dsimp only
  rw [he, hfile, Server.clear]
  dsimp only
  rcases isThere p c.host with ⟨_ | _, host⟩
  · exact alone_binding he (stage_move _ i _)
  · exact alone_knocking he hsocket (stage_move _ i _)
      fun n => silent_move _ i _ (by simp) (hsound n)

/-- A server without a socket file binds its endpoint without looking. -/
theorem alone_passing (hfile : e.file? = none) (hstage : c.stage i = .looking) :
    Alone servers i (Opened i · (Server.step e (bind e) c.host)) c := by
  refine .step ?_
  rw [Contest.step, hstage]
  dsimp only
  rw [he, hfile]
  exact alone_binding he (stage_move _ i _)

/-- A server that comes opens its endpoint if its owner is running. -/
theorem alone_coming (hstage : c.stage i = .coming) (hsound : ∀ n, c.silent n = false)
    (hrunning : ¬((servers i).owner ≠ 0 ∧ !c.host.isRunning (servers i).owner)) :
    Alone servers i (Opened i · (Server.open e c.host)) c := by
  have hlooks (host : Host) : ∀ n, (({ c with host } : Contest).move i .looking).silent n = false :=
    fun n => silent_move _ i _ (by simp) (hsound n)
  refine .step ?_
  rw [Contest.step, hstage]
  dsimp only
  rw [if_neg hrunning, he]
  cases e with
  | loopbackHttp owner port => exact alone_passing he rfl (stage_move _ i _)
  | localSocket owner p =>
    rw [Server.open, Server.step, show prepare (.localSocket owner p) = makeDirectory p from rfl]
    rcases makeDirectory p c.host with ⟨cause | _, host⟩
    · exact .now ⟨stage_move _ i _, rfl⟩
    · exact alone_looking he rfl (stage_move _ i _) (hlooks host)

omit he

/-- Where nobody is silent, a server that nobody disturbs starts as it does by its definition. -/
theorem start_alone (hstage : c.stage i = .coming) (hsound : ∀ n, c.silent n = false) :
    Alone servers i (fun c' => match (servers i).start c.host with
      | (.ok (), s, h) => (∃ n, s.number = some n ∧ c'.stage i = .listening n) ∧ c'.host = h
      | (.error _, _, h) => c'.stage i = .ended ∧ c'.host = h) c := by
  by_cases hrunning : (servers i).owner ≠ 0 ∧ !c.host.isRunning (servers i).owner
  · refine .step (.now ?_)
    rw [Contest.step, hstage]
    dsimp only
    have hstart : (servers i).start c.host =
        (.error (.ownerNotFound s!"process {(servers i).owner} is not running"),
          ((servers i).enter .starting).enter .terminated, c.host) := if_pos hrunning
    rw [if_pos hrunning, hstart]
    exact ⟨stage_move _ i _, rfl⟩
  · refine (alone_coming rfl hstage hsound hrunning).imp fun c' hopened => ?_
    have hstart : (servers i).start c.host = _ := if_neg hrunning
    rw [hstart]
    rcases hopen : Server.open (servers i).endpoint c.host with ⟨cause | n, host⟩
    · rw [hopen] at hopened
      simp only [Server.endpoint, Server.enter] at hopen ⊢
      rw [hopen]
      exact hopened
    · rw [hopen] at hopened
      simp only [Server.endpoint, Server.enter] at hopen ⊢
      rw [hopen]
      exact ⟨⟨n, rfl, hopened.1⟩, hopened.2⟩

/-- A server that stopped removes its socket file next. -/
theorem alone_closing (hstage : c.stage i = .closing) :
    Alone servers i (fun c' => c'.stage i = .ended ∧
      c'.host = removeSocket (servers i).endpoint c.host) c := by
  refine .step (.now ?_)
  rw [Contest.step, hstage]
  dsimp only
  cases (servers i).endpoint with
  | loopbackHttp owner port => exact ⟨stage_move _ i _, rfl⟩
  | localSocket owner p =>
    rw [removeSocket, show Endpoint.file? (.localSocket owner p) = some p from rfl]
    dsimp only
    rcases Access.remove p c.host with ⟨cause | _, host⟩
    · exact ⟨stage_move _ i _, rfl⟩
    · exact ⟨stage_move _ i _, rfl⟩

/-- A server that nobody disturbs ends as it does by its definition. -/
theorem finish_alone {n : Nat} (hstage : c.stage i = .listening n) :
    Alone servers i (fun c' => c'.stage i = .ended ∧
      c'.host = (({ servers i with number := some n } : Server).finish c.host).2) c := by
  refine .step ?_
  rw [Contest.step, hstage]
  dsimp only
  exact alone_closing (stage_move _ i _)

end Alone

end Contest

end Server
end IncrementalBuild
