import IncrementalBuild.Proofs.Serving
import IncrementalBuild.Site
/-!
# Attempts

What may become of one attempt at a call, on either transport: a connection that is not accepted,
one that breaks on the way there or on the way back, an answer from a server of this owner or of
another, or one that comes from something else. Of all these, an attempt that is said to have
found no server has reached no service, and no attempt reaches a service twice.

## Main definitions

* `Attempt` — what becomes of an attempt: its outcome, and the ledger of the services before and
  after it.

## Main results

* `Attempt.calls_of_unreachable` — an attempt that found no server reached no service.
* `Attempt.calls_grow` — an attempt reaches a service at most once.
* `Site.attempt_send` — attempts on a site are attempts.
-/

namespace IncrementalBuild

variable {τ : Type}

/-- What becomes of an attempt at a call. The services that it may reach keep the ledger `calls`. -/
inductive Attempt (call : BuildCall) (calls : List BuildCall) :
    Endpoint → Except CallError BuildResult → List BuildCall → Prop
  /-- The socket file accepts no connection. -/
  | unconnected (owner : Nat) (path : Path) (cause : FileError) :
    Attempt call calls (.localSocket owner path)
      (.error (if Site.isAbsence cause then
          .unreachable s!"{(Endpoint.localSocket owner path).display}: {cause.message}"
        else .io path cause.message)) calls
  /-- The call cannot be written. -/
  | unwritten (owner : Nat) (path : Path) {cause : CallError}
    (hframe : Frame.ofRequest call = .error cause) :
    Attempt call calls (.localSocket owner path) (.error cause) calls
  /-- The connection breaks while the call is written; some of it has arrived. -/
  | cutOff (owner : Nat) (path : Path) {σ : Type} {service : Service σ}
    {ledger : σ → List BuildCall} (hledger : service.Enters ledger) {state : σ}
    (hcalls : ledger state = calls) {frame : Bytes} (hframe : Frame.ofRequest call = .ok frame)
    {arriving : List Bytes} (harriving : arriving.flatten <+: frame) (reason : String) :
    Attempt call calls (.localSocket owner path) (.error (.protocol reason))
      (ledger (service.serve arriving state).2)
  /-- The call is written. Some of it has arrived, and some of the answer comes back. -/
  | exchanged (owner : Nat) (path : Path) {σ : Type} {service : Service σ}
    {ledger : σ → List BuildCall} (hledger : service.Enters ledger) {state : σ}
    (hcalls : ledger state = calls) {frame : Bytes} (hframe : Frame.ofRequest call = .ok frame)
    {arriving returning : List Bytes} (harriving : arriving.flatten <+: frame)
    (hreturning : returning.flatten <+: (service.serve arriving state).1.getD []) :
    Attempt call calls (.localSocket owner path) (Exchange.received returning)
      (ledger (service.serve arriving state).2)
  /-- Something else than a server has taken the socket file over. -/
  | taken (owner : Nat) (path : Path) (returning : List Bytes) :
    Attempt call calls (.localSocket owner path) (Exchange.received returning) calls
  /-- The port accepts no connection. -/
  | refused (owner port : Nat) (reason : String) :
    Attempt call calls (.loopbackHttp owner port) (.error (.unreachable reason)) calls
  /-- The connection breaks before the call has arrived. -/
  | undelivered (e : Endpoint) (reason : String) :
    Attempt call calls e (.error (.protocol reason)) calls
  /-- The server of some owner answers, and the connection breaks on the way back. -/
  | unreturned (owner port : Nat) {σ : Type} {service : Service σ} {ledger : σ → List BuildCall}
    (hledger : service.Enters ledger) {state : σ} (hcalls : ledger state = calls) (server : Nat)
    (reason : String) :
    Attempt call calls (.loopbackHttp owner port) (.error (.protocol reason))
      (ledger (Route.answer service server
        (Exchange.requestOf (.loopbackHttp owner port) call) state).2)
  /-- The server of some owner answers. -/
  | answered (owner port : Nat) {σ : Type} {service : Service σ} {ledger : σ → List BuildCall}
    (hledger : service.Enters ledger) {state : σ} (hcalls : ledger state = calls) (server : Nat) :
    Attempt call calls (.loopbackHttp owner port)
      (Exchange.overHttp service server (.loopbackHttp owner port) call state).1
      (ledger (Exchange.overHttp service server (.loopbackHttp owner port) call state).2)
  /-- Something else than a server answers. -/
  | foreign (owner port : Nat) (response : Http.Response) :
    Attempt call calls (.loopbackHttp owner port)
      (Exchange.resultOf (.loopbackHttp owner port) response) calls

/-! ### Routes -/

/-- A request that is refused makes no entry, and one that is answered makes one. -/
theorem Route.answer_enters {service : Service τ} {ledger : τ → List BuildCall}
    (h : service.Enters ledger) (owner : Nat) (request : Http.Request) (state : τ) :
    ledger (answer service owner request state).2 = ledger state ∨
      (answer service owner request state).1.status = 200 ∧
        ∃ call, ledger (answer service owner request state).2 = ledger state ++ [call] := by
  rw [answer]
  split
  · exact .inl rfl
  · split <;> exact .inl rfl
  · split
    · exact .inl rfl
    split
    · exact .inl rfl
    · exact .inr ⟨rfl, _, h.dispatch _ state⟩

namespace Exchange

/-! ### Causes -/

/-- A cause that an attempt can end with, once its connection is accepted. -/
def IsReported (cause : CallError) : Prop :=
  (∃ reason, cause = .protocol reason) ∨ ∃ report, cause = .remote report

/-- The failure in an answer is reported. -/
theorem isReported_of_toExcept {reply : Reply} {cause : CallError}
    (h : reply.toExcept = .error cause) : IsReported cause := by
  cases reply with
  | built result => cases h
  | failed message => exact .inr ⟨message, (Except.error.inj h).symm⟩

/-- What is made of returning bytes is a result, or a cause that is reported. -/
theorem isReported_of_received {pieces : List Bytes} {cause : CallError}
    (h : received pieces = .error cause) : IsReported cause := by
  rw [received] at h
  cases hread : Frame.read Frame.replyOf pieces with
  | ok r =>
    rw [hread] at h
    exact isReported_of_toExcept h
  | error cause' =>
    rw [hread] at h
    obtain rfl : cause' = cause := Except.error.inj h
    exact .inl (Frame.protocol_of_read hread)

/-- A response says that no server was there if it has the status of an unknown route. With any
other it is a result, or a cause that is reported. -/
theorem resultOf_cases (e : Endpoint) (response : Http.Response) :
    (response.status = 404 ∧ ∃ reason, resultOf e response = .error (.unreachable reason)) ∨
      ∀ cause, resultOf e response = .error cause → IsReported cause := by
  by_cases hunknown : response.status = 404
  · exact .inl ⟨hunknown, _, if_pos hunknown⟩
  refine .inr fun cause h => ?_
  rw [resultOf, if_neg hunknown] at h
  split at h
  · exact .inl ⟨_, (Except.error.inj h).symm⟩
  dsimp only at h
  split at h
  · exact .inl ⟨_, (Except.error.inj h).symm⟩
  split at h
  · exact isReported_of_toExcept h
  · exact .inl ⟨_, (Except.error.inj h).symm⟩

/-- An exchange is a request that is answered. -/
theorem overHttp_eq (service : Service τ) (owner : Nat) (e : Endpoint) (call : BuildCall)
    (state : τ) : overHttp service owner e call state =
      (resultOf e (Route.answer service owner (requestOf e call) state).1,
        (Route.answer service owner (requestOf e call) state).2) := by
  rw [overHttp]

/-- An exchange makes at most one entry. -/
theorem overHttp_enters {service : Service τ} {ledger : τ → List BuildCall}
    (h : service.Enters ledger) (owner : Nat) (e : Endpoint) (call : BuildCall) (state : τ) :
    ledger (overHttp service owner e call state).2 = ledger state ∨
      ∃ entry, ledger (overHttp service owner e call state).2 = ledger state ++ [entry] := by
  rw [overHttp_eq]
  dsimp only
  exact (Route.answer_enters h owner (requestOf e call) state).imp_right And.right

/-- An exchange that says that no server was there makes no entry. With any other end it gives a
result, or a cause that is reported. -/
theorem overHttp_cases {service : Service τ} {ledger : τ → List BuildCall}
    (h : service.Enters ledger) (owner : Nat) (e : Endpoint) (call : BuildCall) (state : τ) :
    (ledger (overHttp service owner e call state).2 = ledger state ∧
      ∃ reason, (overHttp service owner e call state).1 = .error (.unreachable reason)) ∨
    ∀ cause, (overHttp service owner e call state).1 = .error cause → IsReported cause := by
  rw [overHttp_eq]
  dsimp only
  obtain ⟨hunknown, habsent⟩ | hreported :=
    resultOf_cases e (Route.answer service owner (requestOf e call) state).1
  · obtain hnone | ⟨hstatus, -⟩ := Route.answer_enters h owner (requestOf e call) state
    · exact .inl ⟨hnone, habsent⟩
    · rw [hstatus] at hunknown
      cases hunknown
  · exact .inr hreported

end Exchange

namespace Attempt

variable {call : BuildCall} {calls calls' : List BuildCall} {e : Endpoint}
  {answer : Except CallError BuildResult}

/-! ### What an attempt reaches -/

/-- **At most once.** An attempt makes at most one entry. -/
theorem calls_grow (h : Attempt call calls e answer calls') :
    calls' = calls ∨ ∃ entry, calls' = calls ++ [entry] := by
  cases h with
  | unconnected | unwritten | taken | refused | undelivered | foreign => exact .inl rfl
  | cutOff _ _ hledger hcalls | exchanged _ _ hledger hcalls =>
    subst hcalls
    exact hledger.serve _ _
  | unreturned _ _ hledger hcalls server =>
    subst hcalls
    exact (Route.answer_enters hledger server _ _).imp_right And.right
  | answered _ _ hledger hcalls server =>
    subst hcalls
    exact Exchange.overHttp_enters hledger server _ call _

/-- An attempt either fails to connect and makes no entry, or fails, if it does, for a cause that is
reported. -/
theorem outcome (h : Attempt call calls e answer calls') :
    (calls' = calls ∧ ((∃ reason, answer = .error (.unreachable reason)) ∨
      ∃ path reason, answer = .error (.io path reason))) ∨
    ∀ cause, answer = .error cause → Exchange.IsReported cause := by
  cases h with
  | unconnected owner path cause =>
    refine .inl ⟨rfl, ?_⟩
    split
    · exact .inl ⟨_, rfl⟩
    · exact .inr ⟨_, _, rfl⟩
  | unwritten _ _ hframe =>
    refine .inr fun cause h => ?_
    obtain rfl := Except.error.inj h
    exact .inl (Frame.protocol_of_ofLayout hframe)
  | cutOff | undelivered | unreturned =>
    exact .inr fun cause h => .inl ⟨_, (Except.error.inj h).symm⟩
  | exchanged | taken => exact .inr fun cause => Exchange.isReported_of_received
  | refused => exact .inl ⟨rfl, .inl ⟨_, rfl⟩⟩
  | answered owner port hledger hcalls server =>
    subst hcalls
    exact (Exchange.overHttp_cases hledger server _ call _).imp_left
      fun ⟨hnone, habsent⟩ => ⟨hnone, .inl habsent⟩
  | foreign owner port response =>
    exact (Exchange.resultOf_cases _ response).imp_left fun ⟨_, habsent⟩ => ⟨rfl, .inl habsent⟩

/-- **Unreachable.** An attempt that found no server makes no entry. -/
theorem calls_of_unreachable {reason : String}
    (h : Attempt call calls e (.error (.unreachable reason)) calls') : calls' = calls := by
  obtain ⟨hcalls, -⟩ | hreported := h.outcome
  · exact hcalls
  · obtain ⟨_, hcause⟩ | ⟨_, hcause⟩ := hreported _ rfl <;> cases hcause

/-- An attempt never ends with a cause that is the client's own. -/
theorem not_own {cause : CallError} (h : Attempt call calls e (.error cause) calls') :
    (∀ millis, cause ≠ .timeout millis) ∧ ∀ reason, cause ≠ .launch reason := by
  obtain ⟨-, ⟨_, hcause⟩ | ⟨_, _, hcause⟩⟩ | hreported := h.outcome
  · obtain rfl := Except.error.inj hcause
    exact ⟨nofun, nofun⟩
  · obtain rfl := Except.error.inj hcause
    exact ⟨nofun, nofun⟩
  · obtain ⟨_, rfl⟩ | ⟨_, rfl⟩ := hreported _ rfl
    · exact ⟨nofun, nofun⟩
    · exact ⟨nofun, nofun⟩

end Attempt

/-! ### Attempts on a site -/

namespace Site

variable {ledger : τ → List BuildCall} {s : Site τ} {call : BuildCall}

/-- The services on a site enter their calls into one ledger. -/
def Enters (ledger : τ → List BuildCall) (s : Site τ) : Prop :=
  ∀ entry ∈ s.servers, entry.2.2.Enters fun x => ledger x.1

/-- An exchange over a local socket of a site is an attempt. -/
theorem attempt_overSocket {service : Service (τ × Host)}
    (h : service.Enters fun x => ledger x.1) (owner : Nat) (path : Path) (call : BuildCall)
    (state : τ) (host : Host) :
    Attempt call (ledger state) (.localSocket owner path)
      (Exchange.overSocket List.singleton List.singleton service call (state, host)).1
      (ledger
        (Exchange.overSocket List.singleton List.singleton service call (state, host)).2.1) := by
  rw [Exchange.overSocket]
  split
  · exact .undelivered _ _
  cases hframe : Frame.ofRequest call with
  | error cause => exact .unwritten owner path hframe
  | ok frame =>
    have hwhole (bytes : Bytes) : (List.singleton bytes).flatten <+: bytes := by
      simp only [List.singleton, List.flatten_singleton, List.prefix_rfl]
    have hexchanged (returning : List Bytes) (hreturning : returning.flatten <+:
          (service.serve (List.singleton frame) (state, host)).1.getD []) :
        Attempt call (ledger state) (.localSocket owner path) (Exchange.received returning)
          (ledger (service.serve (List.singleton frame) (state, host)).2.1) :=
      .exchanged owner path h rfl hframe (hwhole frame) hreturning
    dsimp only
    rcases hserve : service.serve (List.singleton frame) (state, host) with ⟨_ | answer, state'⟩
    · rw [hserve] at hexchanged
      exact hexchanged [] (List.prefix_refl [])
    · rw [hserve] at hexchanged
      exact hexchanged (List.singleton answer) (hwhole answer)

/-- An exchange over the loopback transport of a site is an attempt. -/
theorem attempt_overHttp {service : Service (τ × Host)}
    (h : service.Enters fun x => ledger x.1) (owner port server : Nat) (call : BuildCall)
    (state : τ) (host : Host) :
    Attempt call (ledger state) (.loopbackHttp owner port)
      (Exchange.overHttp service server (.loopbackHttp owner port) call (state, host)).1
      (ledger
        (Exchange.overHttp service server (.loopbackHttp owner port) call (state, host)).2.1) := by
  have hcalls : (fun x : τ × Host => ledger x.1) (state, host) = ledger state := rfl
  exact .answered owner port h hcalls server

/-- The server that is found under a number enters its calls. -/
theorem Enters.lookup (h : s.Enters ledger) {number : Nat} {server : Server}
    {service : Service (τ × Host)} (hlookup : s.servers.lookup number = some (server, service)) :
    service.Enters fun x => ledger x.1 := by
  obtain ⟨before, after, hservers, -⟩ := List.lookup_eq_some_iff.mp hlookup
  refine h (number, server, service) ?_
  rw [hservers]
  exact List.mem_append_right before List.mem_cons_self

/-- An attempt on a site is an attempt. -/
theorem attempt_send (h : s.Enters ledger) (e : Endpoint) (call : BuildCall) :
    Attempt call (ledger s.state) e (s.send e call).1 (ledger (s.send e call).2.state) := by
  cases e with
  | localSocket owner path =>
    rw [send, sendLocal]
    rcases Access.connectSocket path s.host with ⟨cause | number, host⟩
    · exact .unconnected owner path cause
    dsimp only
    rcases hlookup : s.servers.lookup number with _ | ⟨server, service⟩
    · exact .undelivered _ _
    · have hattempt := attempt_overSocket (h.lookup hlookup) owner path call s.state host
      dsimp only
      rcases hexchange : Exchange.overSocket List.singleton List.singleton service call
        (s.state, host) with ⟨answer, state, host'⟩
      rw [hexchange] at hattempt
      exact hattempt
  | loopbackHttp owner port =>
    rw [send, sendHttp]
    rcases Access.connectPort port s.host with ⟨cause | number, host⟩
    · exact .refused owner port _
    dsimp only
    rcases hlookup : s.servers.lookup number with _ | ⟨server, service⟩
    · exact .refused owner port _
    · have hattempt := attempt_overHttp (h.lookup hlookup) owner port server.owner call s.state host
      dsimp only
      rcases hexchange : Exchange.overHttp service server.owner (.loopbackHttp owner port) call
        (s.state, host) with ⟨answer, state, host'⟩
      rw [hexchange] at hattempt
      exact hattempt

/-- An attempt on a site leaves its servers as they are. -/
theorem servers_send (e : Endpoint) (call : BuildCall) (s : Site τ) :
    (s.send e call).2.servers = s.servers := by
  cases e with
  | localSocket owner path =>
    rw [send, sendLocal]
    split
    · rfl
    split <;> rfl
  | loopbackHttp owner port =>
    rw [send, sendHttp]
    dsimp only
    split
    · rfl
    split <;> rfl

end Site

end IncrementalBuild
